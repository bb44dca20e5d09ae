import TolerantSyntax.Proofs.Layout.Tree
import TolerantSyntax.Tree.NodeSize

/-!
# Parts and children

The children of a node are among its parts, in their order.  What lies in between are
tokens, parts without expressions, and the branches of elements and blocks, whose own
parts come to light.  So where the parts of a node fit its children do, and they hold the
same expressions.
-/

namespace TolerantSyntax

namespace Layout

inductive Reveals : List Layout → List Layout → Prop where
  | nil : Reveals [] []
  | keep {part : Layout} {rest shown : List Layout} (hrest : Reveals rest shown) :
      Reveals (part :: rest) (part :: shown)
  | drop {part : Layout} {rest shown : List Layout} (hexprs : part.exprs = [])
      (hrest : Reveals rest shown) : Reveals (part :: rest) shown
  | enter {range : TokenRange} {parts rest inner shown : List Layout}
      (hparts : Reveals parts inner) (hrest : Reveals rest shown) :
      Reveals (.branch range none parts :: rest) (inner ++ shown)

namespace Reveals

variable {parts rest shown other otherShown : List Layout}

theorem self (parts : List Layout) : Reveals parts parts := by
  induction parts with
  | nil => exact .nil
  | cons part rest ih => exact .keep ih

theorem append (h : Reveals parts shown) (hother : Reveals other otherShown) :
    Reveals (parts ++ other) (shown ++ otherShown) := by
  induction h with
  | nil => exact hother
  | keep hrest ih => exact .keep ih
  | drop hexprs hrest ih => exact .drop hexprs ih
  | enter hparts hrest ihparts ihrest =>
      rw [List.append_assoc]
      exact .enter hparts ihrest

theorem token {entry : Leaf} (h : Reveals rest shown) : Reveals (.leaf entry :: rest) shown :=
  .drop rfl h

theorem hide (h : exprsOf parts = []) : Reveals parts [] := by
  induction parts with
  | nil => exact .nil
  | cons part rest ih =>
      obtain ⟨hpart, hrest⟩ := List.append_eq_nil_iff.mp h
      exact .drop hpart (ih hrest)

theorem inside {range : TokenRange} (h : Reveals parts shown) :
    Reveals [.branch range none parts] shown := by
  simpa using enter h .nil

theorem tokens? (token? : Option Nat) : Reveals (Layout.tokens? token?) [] :=
  hide (by cases token? <;> rfl)

theorem beforeTokens? (h : Reveals parts shown) (token? : Option Nat) :
    Reveals (parts ++ Layout.tokens? token?) shown := by
  simpa using h.append (tokens? token?)

theorem behindTokens? (h : Reveals parts shown) (token? : Option Nat) :
    Reveals (Layout.tokens? token? ++ parts) shown := (tokens? token?).append h

theorem flatMap {α : Type} {list : List α} {parts shown : α → List Layout}
    (h : ∀ x ∈ list, Reveals (parts x) (shown x)) :
    Reveals (list.flatMap parts) (list.flatMap shown) := by
  induction list with
  | nil => exact .nil
  | cons x rest ih =>
      rw [List.flatMap_cons, List.flatMap_cons]
      exact (h x (List.mem_cons_self ..)).append
        (ih fun y hmem => h y (List.mem_cons_of_mem _ hmem))

theorem exprsOf_eq (h : Reveals parts shown) : exprsOf parts = exprsOf shown := by
  induction h with
  | nil => rfl
  | keep hrest ih => rw [exprsOf_cons, exprsOf_cons, ih]
  | drop hexprs hrest ih => rw [exprsOf_cons, hexprs, List.nil_append, ih]
  | enter hparts hrest ihparts ihrest => simp [ihparts, ihrest]

theorem fits {start stop : Nat} (h : Reveals parts shown) (hfits : Fits parts start stop) :
    Fits shown start stop := by
  induction h generalizing start stop with
  | nil => exact hfits
  | keep hrest ih =>
      cases hfits with
      | leaf hstart hfits => exact .leaf hstart (ih hfits)
      | branch hstart hparts hfits => exact .branch hstart hparts (ih hfits)
  | drop hexprs hrest ih =>
      cases hfits with
      | leaf hstart hfits => exact (ih hfits).from_le (by omega)
      | branch hstart hparts hfits =>
          have hle := hparts.le
          exact (ih hfits).from_le (by omega)
  | enter hparts hrest ihparts ihrest =>
      cases hfits with
      | branch hstart hinner hfits =>
          exact ((ihparts hinner).from_le hstart).append (ihrest hfits)

end Reveals
end Layout

open Layout (Reveals)

theorem ElementType.reveals (element : ElementType) :
    Reveals [element.layout] [element.type.layout] := by
  cases element with
  | mk range readonly? skippedRef? type name? =>
      have hmarks := (Reveals.tokens? readonly?).beforeTokens? skippedRef?
      exact .inside (hmarks.append ((Reveals.self [type.layout]).beforeTokens? name?))

theorem elements_reveal (elements : List ElementType) :
    Reveals (elements.map (·.layout)) (elements.map (·.type.layout)) := by
  rw [List.map_eq_flatMap, List.map_eq_flatMap]
  exact .flatMap fun element _ => element.reveals

theorem ArrayRank.exprsOf_parts (rank : ArrayRank) : Layout.exprsOf rank.parts = [] := by
  cases rank with
  | mk opening dimensions closing? => cases closing? <;> rfl

theorem ranks_reveal (ranks : List ArrayRank) : Reveals (ranks.flatMap (·.parts)) [] := by
  induction ranks with
  | nil => exact .nil
  | cons rank rest ih => exact (Reveals.hide rank.exprsOf_parts).append ih

theorem RefQualifier.exprsOf_parts (qualifier : RefQualifier) :
    Layout.exprsOf qualifier.parts = [] := by
  cases qualifier with
  | mk readonly? ref => cases readonly? <;> rfl

theorem TypeSyntax.reveals (type : TypeSyntax) :
    Reveals type.parts (type.children.map (·.layout)) := by
  cases type with
  | predefined | named => exact .token .nil
  | generic range name lt args gt? =>
      rw [parts, elementLayouts_eq, children, List.map_map]
      exact .token (.token ((elements_reveal args).beforeTokens? gt?))
  | qualified range left dot right => exact .keep (.token (.keep .nil))
  | array range element ranks => exact .keep (ranks_reveal ranks)
  | pointer range inner suffix | nullable range inner suffix => exact .keep (.token .nil)
  | tuple range opening elements closing? =>
      rw [parts, elementLayouts_eq, children, List.map_map]
      exact .token ((elements_reveal elements).beforeTokens? closing?)
  | byRef range qualifier inner =>
      exact (Reveals.hide qualifier.exprsOf_parts).append (.keep .nil)
  | missing => exact .nil

theorem TypeSyntax.exprsOf_parts (type : TypeSyntax) : Layout.exprsOf type.parts = [] := by
  rw [type.reveals.exprsOf_eq]
  have hchildren : ∀ child ∈ type.children, Layout.exprsOf child.parts = [] :=
    fun child hmem => child.exprsOf_parts
  generalize type.children = children at hchildren
  induction children with
  | nil => rfl
  | cons child rest ih =>
      have hchild := hchildren child (List.mem_cons_self ..)
      have hrest := ih fun other hmem => hchildren other (List.mem_cons_of_mem _ hmem)
      rw [List.map_cons, Layout.exprsOf_cons, hrest]
      simp [TypeSyntax.layout, Layout.node, hchild]
termination_by sizeOf type
decreasing_by exact sizeOf_child_lt hmem

/-! ## Expressions and statements -/

theorem TypeArguments.reveals (args : TypeArguments) :
    Reveals args.parts (args.nodes.map (·.layout)) := by
  rw [parts, nodes, List.map_map]
  exact .token ((elements_reveal args.args).beforeTokens? args.gt?)

theorem Argument.reveals (arg : Argument) : Reveals arg.parts [arg.value.layout] := by
  cases arg with
  | mk modifier? value => exact (Reveals.self [value.layout]).behindTokens? modifier?

theorem ArgumentList.reveals (list : ArgumentList) :
    Reveals list.parts (list.nodes.map (·.layout)) := by
  cases list with
  | mk opening args closing? =>
      have hargs : Reveals (args.flatMap (·.parts)) (args.map (·.value.layout)) := by
        rw [List.map_eq_flatMap]
        exact .flatMap fun arg _ => arg.reveals
      rw [parts, argumentParts_eq, nodes, List.map_map]
      exact .token (hargs.beforeTokens? closing?)

theorem SizedRank.reveals (rank : SizedRank) :
    Reveals rank.parts (rank.nodes.map (·.layout)) := by
  cases rank with
  | mk opening dimensions sizes closing? =>
      rw [parts, exprLayouts_eq, nodes, List.map_map]
      exact .token ((Reveals.self _).beforeTokens? closing?)

theorem Expr.reveals (expr : Expr) : Reveals expr.parts (expr.children.map (·.layout)) := by
  cases expr with
  | literal | name | thisRef | baseRef | predefinedType => exact .token .nil
  | genericName info name args => exact .token args.reveals
  | parenthesized info inner | unary info op inner | step info op inner => exact .keep .nil
  | tuple info elements =>
      rw [parts, exprLayouts_eq, children, List.map_map]
      exact .token (.self _)
  | memberAccess info receiver dot name? args? =>
      cases args? with
      | none =>
          rw [parts]
          exact .keep (.token ((Reveals.tokens? name?).append .nil))
      | some args =>
          have hargs : Reveals ((some args).toList.flatMap (·.parts))
              (args.nodes.map (·.layout)) := by simpa using args.reveals
          exact .keep (.token (hargs.behindTokens? name?))
  | invocation info callee args | elementAccess info callee args => exact .keep args.reveals
  | binary info op left right | assign info op left right => exact .self _
  | conditional => exact .self _
  | isType | asType | cast => exact .self _
  | newObject info keyword type args? items? =>
      rw [parts, argumentListParts?_eq, exprLayouts?_eq, children, List.map_cons, List.map_append,
        List.map_flatMap, List.map_map]
      exact .token (.keep ((Reveals.flatMap fun list _ => list.reveals).append (.self _)))
  | newArray info keyword element ranks items? =>
      rw [parts, rankParts_eq, exprLayouts?_eq, children, List.map_cons, List.map_append,
        List.map_flatMap, List.map_map]
      exact .token (.keep ((Reveals.flatMap fun rank _ => rank.reveals).append (.self _)))
  | arrayInitializer info elements =>
      rw [parts, exprLayouts_eq, children, List.map_map]
      exact .self _
  | defaultValue info keyword type? =>
      rw [parts, children, List.map_map]
      exact .token (.self _)
  | typeOf => exact .token (.self _)
  | refExpr | throwExpr => exact .token (.self _)
  | missing => exact .nil

theorem ModifierSet.exprsOf_parts (set : ModifierSet) : Layout.exprsOf set.parts = [] := by
  unfold parts
  induction set.entries with
  | nil => rfl
  | cons entry rest ih => rw [List.map_cons, Layout.exprsOf_cons, ih]; rfl

theorem Declarator.reveals (declarator : Declarator) :
    Reveals declarator.parts (declarator.nodes.map (·.layout)) := by
  rw [parts, nodes, List.map_map]
  exact ((Reveals.tokens? declarator.name?).beforeTokens? declarator.eq?).append (.self _)

theorem declarators_reveal (declarators : List Declarator) :
    Reveals (declarators.flatMap (·.parts))
      ((declarators.flatMap (·.nodes)).map (·.layout)) := by
  rw [List.map_flatMap]
  exact .flatMap fun declarator _ => declarator.reveals

theorem Block.reveals (block : Block) : Reveals [block.layout] (block.stmts.map (·.layout)) := by
  cases block with
  | mk range opening stmts closing? =>
      rw [layout, parts, stmtLayouts_eq]
      exact .inside (.token ((Reveals.self _).beforeTokens? closing?))

theorem Stmt.reveals (stmt : Stmt) : Reveals stmt.parts (stmt.children.map (·.layout)) := by
  cases stmt with
  | block range body =>
      rw [children, List.map_map]
      exact body.reveals
  | declaration range decl =>
      have hdeclarators := (declarators_reveal decl.declarators).beforeTokens? decl.semicolon?
      exact (Reveals.hide decl.modifiers.exprsOf_parts).append (.keep hdeclarators)
  | expression range expr semicolon? => exact .keep (.tokens? semicolon?)
  | returnStmt range keyword ref? value? semicolon? =>
      rw [parts, children, List.map_map]
      have href : Reveals (returnRefParts ref?) [] := .hide (by cases ref? <;> rfl)
      exact .token ((href.append (.self _)).beforeTokens? semicolon?)
  | throwStmt range keyword value? semicolon? =>
      rw [parts, children, List.map_map]
      exact .token ((Reveals.self _).beforeTokens? semicolon?)
  | ifElse range keyword condition whenTrue whenFalse? =>
      rw [parts, stmtLayouts?_eq, children, List.map_cons, List.map_cons, List.map_map]
      exact .token (.self _)
  | whileLoop => exact .token (.self _)
  | empty => exact .token .nil
  | skipped => exact .nil

/-! ## Members -/

theorem TypeParameterList.reveals (list? : Option TypeParameterList) :
    Reveals (list?.toList.flatMap (·.parts)) [] := by
  refine .hide ?_
  cases list? with
  | none => rfl
  | some list =>
      have hparams : Reveals (list.params.map .token) [] := by
        induction list.params with
        | nil => exact .nil
        | cons param rest ih => exact .token ih
      simpa [parts, Layout.token] using (hparams.beforeTokens? list.gt?).exprsOf_eq

theorem Parameter.reveals (parameter : Parameter) :
    Reveals parameter.parts (parameter.nodes.map (·.layout)) := by
  rw [parts, nodes, List.map_cons, List.map_map]
  exact (Reveals.keep ((Reveals.self _).behindTokens? parameter.name?)).behindTokens?
    parameter.modifier?

theorem ParameterList.reveals (list : ParameterList) :
    Reveals list.parts (list.nodes.map (·.layout)) := by
  rw [parts, nodes, List.map_flatMap]
  have hparams : Reveals (list.params.flatMap (·.parts))
      (list.params.flatMap fun parameter => parameter.nodes.map (·.layout)) :=
    .flatMap fun parameter _ => parameter.reveals
  exact (hparams.behindTokens? list.opening?).beforeTokens? list.closing?

theorem ArrowBody.reveals (body : ArrowBody) : Reveals body.parts [body.expr.layout] :=
  .token (.keep (.tokens? body.semicolon?))

theorem MemberBody.reveals (body : MemberBody) :
    Reveals body.parts (body.nodes.map (·.layout)) := by
  cases body with
  | block block =>
      rw [nodes, List.map_map]
      exact block.reveals
  | arrow body => exact body.reveals
  | semicolon semicolon? => exact .tokens? semicolon?

theorem Accessor.reveals (accessor : Accessor) :
    Reveals accessor.parts (accessor.body.nodes.map (·.layout)) :=
  (Reveals.hide accessor.modifiers.exprsOf_parts).append (.token accessor.body.reveals)

theorem PropertyBody.reveals (body : PropertyBody) :
    Reveals body.parts (body.nodes.map (·.layout)) := by
  cases body with
  | accessors opening? list closing? =>
      rw [parts, nodes, List.map_flatMap]
      have hlist : Reveals (list.flatMap (·.parts))
          (list.flatMap fun accessor => accessor.body.nodes.map (·.layout)) :=
        .flatMap fun accessor _ => accessor.reveals
      exact (hlist.behindTokens? opening?).beforeTokens? closing?
  | arrow body => exact body.reveals

theorem operatorParts_reveal (type : TypeSyntax) (keyword : Nat) (op? : Option TokenRange) :
    Reveals (operatorParts type keyword op?) [type.layout] := by
  have htokens : Reveals (operatorTokens op?) [] := by
    cases op? with
    | none => exact .nil
    | some op =>
        rw [operatorTokens, Option.toList_some, List.flatMap_cons, List.flatMap_nil,
          List.append_nil]
        induction op.indices with
        | nil => exact .nil
        | cons index rest ih => exact .token ih
  unfold operatorParts
  split
  · exact htokens.append (.token (.keep .nil))
  · exact .keep (.token htokens)

theorem Member.reveals (member : Member) :
    Reveals member.parts (member.children.map (·.layout)) := by
  have hmodifiers := Reveals.hide member.info.modifiers.exprsOf_parts
  cases member with
  | field info type declarators semicolon? =>
      exact hmodifiers.append (.keep ((declarators_reveal declarators).beforeTokens? semicolon?))
  | method info type name typeParams? params body =>
      rw [children, List.map_cons, List.map_append]
      have hparams := (TypeParameterList.reveals typeParams?).append params.reveals
      exact hmodifiers.append (.keep (.token (hparams.append body.reveals)))
  | property info type name body => exact hmodifiers.append (.keep (.token body.reveals))
  | indexer info type this params body =>
      rw [children, List.map_cons, List.map_append]
      exact hmodifiers.append (.keep (.token (params.reveals.append body.reveals)))
  | operator info type keyword op? params body =>
      rw [children, List.map_cons, List.map_append]
      have htype := hmodifiers.append (operatorParts_reveal type keyword op?)
      exact (htype.append params.reveals).append body.reveals
  | constructor info name params body =>
      rw [children, List.map_append]
      exact hmodifiers.append (.token (params.reveals.append body.reveals))
  | delegate info keyword type name? typeParams? params semicolon? =>
      have hname := (Reveals.tokens? name?).append (TypeParameterList.reveals typeParams?)
      exact hmodifiers.append (.token (.keep
        ((hname.append params.reveals).beforeTokens? semicolon?)))
  | typeDecl info head opening? members closing? semicolon? =>
      rw [parts, memberLayouts_eq, children, List.map_append, List.map_map, List.map_map]
      have hname := (Reveals.tokens? head.name?).append (TypeParameterList.reveals head.typeParams?)
      have hhead : Reveals head.parts (head.bases.map (·.layout)) :=
        .token (hname.append (.self _))
      exact ((((hmodifiers.append hhead).beforeTokens? opening?).append (.self _)).beforeTokens?
        closing?).beforeTokens? semicolon?
  | namespaceDecl info keyword name opening? members closing? =>
      rw [parts, memberLayouts_eq, children, List.map_map]
      have hname : name.layout.exprs = [] := by
        simp [TypeSyntax.layout, Layout.node, name.exprsOf_parts]
      exact hmodifiers.append (.token (.drop hname
        (((Reveals.self _).behindTokens? opening?).beforeTokens? closing?)))
  | usingDirective info keyword name semicolon? =>
      have hname : name.layout.exprs = [] := by
        simp [TypeSyntax.layout, Layout.node, name.exprsOf_parts]
      exact hmodifiers.append (.token (.drop hname (.tokens? semicolon?)))
  | incomplete info type? =>
      rw [parts, children, List.map_map]
      exact hmodifiers.append (.self _)
  | skipped info => exact hmodifiers

theorem Node.reveals (node : Node) : Reveals node.parts (node.children.map (·.layout)) := by
  cases node with
  | member inner => exact inner.reveals
  | type inner =>
      rw [children, List.map_map]
      exact inner.reveals
  | stmt inner => exact inner.reveals
  | expr inner => exact inner.reveals

end TolerantSyntax
