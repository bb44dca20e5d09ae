import TolerantSyntax.Proofs.Layout.Basic
import TolerantSyntax.Tree.Node

/-!
# The layout of a tree

The parts of a node are its tokens, the nodes inside it, and the parts of what has no
range of its own: ranks, arguments, declarators, parameters, bodies.  The token that
begins a construct that only some versions have is marked with the feature.
-/

namespace TolerantSyntax

def RefQualifier.parts (qualifier : RefQualifier) : List Layout :=
  match qualifier.readonly? with
  | some readonly => [.gate .readonlyReferences readonly, .token qualifier.ref]
  | none => [.gate .refLocalsAndReturns qualifier.ref]

def ArrayRank.parts (rank : ArrayRank) : List Layout :=
  .token rank.opening :: Layout.tokens? rank.closing?

mutual

def TypeSyntax.parts : TypeSyntax → List Layout
  | .predefined _ token | .named _ token => [.token token]
  | .generic _ name lt args gt? =>
      .token name :: .token lt :: (elementLayouts args ++ Layout.tokens? gt?)
  | .qualified _ left dot right =>
      [.node left.range left.parts, .token dot, .node right.range right.parts]
  | .array _ element ranks => .node element.range element.parts :: ranks.flatMap (·.parts)
  | .pointer _ inner suffix | .nullable _ inner suffix =>
      [.node inner.range inner.parts, .token suffix]
  | .tuple _ opening elements closing? =>
      .gate .tuples opening :: (elementLayouts elements ++ Layout.tokens? closing?)
  | .byRef _ qualifier inner => qualifier.parts ++ [.node inner.range inner.parts]
  | .missing _ => []

def ElementType.parts : ElementType → List Layout
  | .mk _ readonly? skippedRef? type name? =>
      Layout.tokens? readonly? ++ Layout.tokens? skippedRef? ++
        .node type.range type.parts :: Layout.tokens? name?

def elementLayouts : List ElementType → List Layout
  | [] => []
  | element :: rest => .node element.range element.parts :: elementLayouts rest

end

def TypeSyntax.layout (type : TypeSyntax) : Layout := .node type.range type.parts

def ElementType.layout (element : ElementType) : Layout := .node element.range element.parts

theorem elementLayouts_eq (elements : List ElementType) :
    elementLayouts elements = elements.map (·.layout) := by
  induction elements with
  | nil => rfl
  | cons element rest ih => rw [elementLayouts, ih, List.map_cons, ElementType.layout]

def TypeArguments.parts (args : TypeArguments) : List Layout :=
  .token args.lt :: (args.args.map (·.layout) ++ Layout.tokens? args.gt?)

/-! ## Expressions and statements -/

mutual

def Expr.parts : Expr → List Layout
  | .literal _ token | .name _ token | .thisRef _ token | .baseRef _ token
  | .predefinedType _ token => [.token token]
  | .genericName _ name args => .token name :: args.parts
  | .parenthesized _ inner | .unary _ _ inner | .step _ _ inner => [.ofExpr inner inner.parts]
  | .tuple info elements => .implied (some .tuples) info.range.start :: exprLayouts elements
  | .memberAccess _ receiver dot name? args? =>
      .ofExpr receiver receiver.parts :: .token dot ::
        (Layout.tokens? name? ++ args?.toList.flatMap (·.parts))
  | .invocation _ callee args | .elementAccess _ callee args =>
      .ofExpr callee callee.parts :: args.parts
  | .binary _ _ left right | .assign _ _ left right =>
      [.ofExpr left left.parts, .ofExpr right right.parts]
  | .conditional _ condition whenTrue whenFalse =>
      [.ofExpr condition condition.parts, .ofExpr whenTrue whenTrue.parts,
        .ofExpr whenFalse whenFalse.parts]
  | .isType _ operand type | .asType _ operand type =>
      [.ofExpr operand operand.parts, type.layout]
  | .cast _ type operand => [type.layout, .ofExpr operand operand.parts]
  | .newObject _ keyword type args? items? =>
      .token keyword :: type.layout :: (argumentListParts? args? ++ exprLayouts? items?)
  | .newArray _ keyword element ranks items? =>
      .token keyword :: element.layout :: (rankParts ranks ++ exprLayouts? items?)
  | .arrayInitializer _ elements => exprLayouts elements
  | .defaultValue _ keyword type? => .token keyword :: type?.toList.map (·.layout)
  | .typeOf _ keyword type => [.token keyword, type.layout]
  | .refExpr _ keyword operand =>
      [.gate .refLocalsAndReturns keyword, .ofExpr operand operand.parts]
  | .throwExpr _ keyword operand =>
      [.gate .throwExpressions keyword, .ofExpr operand operand.parts]
  | .missing _ => []

def Argument.parts : Argument → List Layout
  | .mk modifier? value => Layout.tokens? modifier? ++ [.ofExpr value value.parts]

def ArgumentList.parts : ArgumentList → List Layout
  | .mk opening args closing? =>
      .token opening :: (argumentParts args ++ Layout.tokens? closing?)

def SizedRank.parts : SizedRank → List Layout
  | .mk opening _ sizes closing? =>
      .token opening :: (exprLayouts sizes ++ Layout.tokens? closing?)

def exprLayouts : List Expr → List Layout
  | [] => []
  | expr :: rest => .ofExpr expr expr.parts :: exprLayouts rest

def exprLayouts? : Option Expr → List Layout
  | none => []
  | some expr => [.ofExpr expr expr.parts]

def argumentParts : List Argument → List Layout
  | [] => []
  | arg :: rest => arg.parts ++ argumentParts rest

def argumentListParts? : Option ArgumentList → List Layout
  | none => []
  | some list => list.parts

def rankParts : List SizedRank → List Layout
  | [] => []
  | rank :: rest => rank.parts ++ rankParts rest

end

def Expr.layout (expr : Expr) : Layout := .ofExpr expr expr.parts

theorem exprLayouts_eq (exprs : List Expr) : exprLayouts exprs = exprs.map (·.layout) := by
  induction exprs with
  | nil => rfl
  | cons expr rest ih => rw [exprLayouts, ih, List.map_cons, Expr.layout]

theorem exprLayouts?_eq (expr? : Option Expr) :
    exprLayouts? expr? = expr?.toList.map (·.layout) := by
  cases expr? <;> rfl

theorem argumentParts_eq (args : List Argument) :
    argumentParts args = args.flatMap (·.parts) := by
  induction args with
  | nil => rfl
  | cons arg rest ih => rw [argumentParts, ih, List.flatMap_cons]

theorem argumentListParts?_eq (list? : Option ArgumentList) :
    argumentListParts? list? = list?.toList.flatMap (·.parts) := by
  cases list? <;> simp [argumentListParts?]

theorem rankParts_eq (ranks : List SizedRank) : rankParts ranks = ranks.flatMap (·.parts) := by
  induction ranks with
  | nil => rfl
  | cons rank rest ih => rw [rankParts, ih, List.flatMap_cons]

def ModifierSet.parts (set : ModifierSet) : List Layout :=
  set.entries.map fun entry => .token entry.token

def Declarator.parts (declarator : Declarator) : List Layout :=
  Layout.tokens? declarator.name? ++ Layout.tokens? declarator.eq? ++
    declarator.value?.toList.map (·.layout)

def LocalDeclaration.parts (decl : LocalDeclaration) : List Layout :=
  decl.modifiers.parts ++ decl.type.layout ::
    (decl.declarators.flatMap (·.parts) ++ Layout.tokens? decl.semicolon?)

def returnRefParts (ref? : Option Nat) : List Layout :=
  ref?.toList.map (.gate .refLocalsAndReturns)

mutual

def Stmt.parts : Stmt → List Layout
  | .block _ block => [.node block.range block.parts]
  | .declaration _ decl => decl.parts
  | .expression _ expr semicolon? => expr.layout :: Layout.tokens? semicolon?
  | .returnStmt _ keyword ref? value? semicolon? =>
      .token keyword :: (returnRefParts ref? ++ value?.toList.map (·.layout) ++
        Layout.tokens? semicolon?)
  | .throwStmt _ keyword value? semicolon? =>
      .token keyword :: (value?.toList.map (·.layout) ++ Layout.tokens? semicolon?)
  | .ifElse _ keyword condition whenTrue whenFalse? =>
      .token keyword :: condition.layout :: .node whenTrue.range whenTrue.parts ::
        stmtLayouts? whenFalse?
  | .whileLoop _ keyword condition body =>
      [.token keyword, condition.layout, .node body.range body.parts]
  | .empty _ semicolon => [.token semicolon]
  | .skipped _ => []

def Block.parts : Block → List Layout
  | .mk _ opening stmts closing? =>
      .token opening :: (stmtLayouts stmts ++ Layout.tokens? closing?)

def stmtLayouts : List Stmt → List Layout
  | [] => []
  | stmt :: rest => .node stmt.range stmt.parts :: stmtLayouts rest

def stmtLayouts? : Option Stmt → List Layout
  | none => []
  | some stmt => [.node stmt.range stmt.parts]

end

def Stmt.layout (stmt : Stmt) : Layout := .node stmt.range stmt.parts

def Block.layout (block : Block) : Layout := .node block.range block.parts

theorem stmtLayouts_eq (stmts : List Stmt) : stmtLayouts stmts = stmts.map (·.layout) := by
  induction stmts with
  | nil => rfl
  | cons stmt rest ih => rw [stmtLayouts, ih, List.map_cons, Stmt.layout]

theorem stmtLayouts?_eq (stmt? : Option Stmt) :
    stmtLayouts? stmt? = stmt?.toList.map (·.layout) := by
  cases stmt? <;> rfl

/-! ## Members and whole trees -/

def TypeParameterList.parts (list : TypeParameterList) : List Layout :=
  .token list.lt :: (list.params.map .token ++ Layout.tokens? list.gt?)

def Parameter.parts (parameter : Parameter) : List Layout :=
  Layout.tokens? parameter.modifier? ++ parameter.type.layout ::
    (Layout.tokens? parameter.name? ++ parameter.value?.toList.map (·.layout))

def ParameterList.parts (list : ParameterList) : List Layout :=
  Layout.tokens? list.opening? ++ list.params.flatMap (·.parts) ++
    Layout.tokens? list.closing?

def ArrowBody.parts (body : ArrowBody) : List Layout :=
  .gate .expressionBodiedMembers body.arrow :: body.expr.layout ::
    Layout.tokens? body.semicolon?

def MemberBody.parts : MemberBody → List Layout
  | block body => [body.layout]
  | arrow body => body.parts
  | semicolon semicolon? => Layout.tokens? semicolon?

def Accessor.parts (accessor : Accessor) : List Layout :=
  accessor.modifiers.parts ++ .token accessor.keyword :: accessor.body.parts

def PropertyBody.parts : PropertyBody → List Layout
  | accessors opening? list closing? =>
      Layout.tokens? opening? ++ list.flatMap (·.parts) ++ Layout.tokens? closing?
  | arrow body => body.parts

def TypeHead.parts (head : TypeHead) : List Layout :=
  .token head.keyword :: (Layout.tokens? head.name? ++
    head.typeParams?.toList.flatMap (·.parts) ++ head.bases.map (·.layout))

def operatorTokens (op? : Option TokenRange) : List Layout :=
  op?.toList.flatMap fun op => op.indices.map .token

def operatorParts (type : TypeSyntax) (keyword : Nat) (op? : Option TokenRange) : List Layout :=
  if op?.any (·.start < keyword) then operatorTokens op? ++ [.token keyword, type.layout]
  else type.layout :: .token keyword :: operatorTokens op?

mutual

def Member.parts : Member → List Layout
  | .field info type declarators semicolon? =>
      info.modifiers.parts ++
        type.layout :: (declarators.flatMap (·.parts) ++ Layout.tokens? semicolon?)
  | .method info type name typeParams? params body =>
      info.modifiers.parts ++ type.layout :: .token name ::
        (typeParams?.toList.flatMap (·.parts) ++ params.parts ++ body.parts)
  | .property info type name body =>
      info.modifiers.parts ++ type.layout :: .token name :: body.parts
  | .indexer info type this params body =>
      info.modifiers.parts ++ type.layout :: .token this :: (params.parts ++ body.parts)
  | .operator info type keyword op? params body =>
      info.modifiers.parts ++ operatorParts type keyword op? ++ params.parts ++ body.parts
  | .constructor info name params body =>
      info.modifiers.parts ++ .token name :: (params.parts ++ body.parts)
  | .delegate info keyword type name? typeParams? params semicolon? =>
      info.modifiers.parts ++ .token keyword :: type.layout ::
        (Layout.tokens? name? ++ typeParams?.toList.flatMap (·.parts) ++ params.parts ++
          Layout.tokens? semicolon?)
  | .typeDecl info head opening? members closing? semicolon? =>
      info.modifiers.parts ++ head.parts ++ Layout.tokens? opening? ++
        memberLayouts members ++ Layout.tokens? closing? ++ Layout.tokens? semicolon?
  | .namespaceDecl info keyword name opening? members closing? =>
      info.modifiers.parts ++ .token keyword :: name.layout ::
        (Layout.tokens? opening? ++ memberLayouts members ++ Layout.tokens? closing?)
  | .usingDirective info keyword name semicolon? =>
      info.modifiers.parts ++
        .token keyword :: name.layout :: Layout.tokens? semicolon?
  | .incomplete info type? => info.modifiers.parts ++ type?.toList.map (·.layout)
  | .skipped info => info.modifiers.parts

def memberLayouts : List Member → List Layout
  | [] => []
  | member :: rest => .node member.range member.parts :: memberLayouts rest

end

def Member.layout (member : Member) : Layout := .node member.range member.parts

theorem memberLayouts_eq (members : List Member) :
    memberLayouts members = members.map (·.layout) := by
  induction members with
  | nil => rfl
  | cons member rest ih => rw [memberLayouts, ih, List.map_cons, Member.layout]

namespace Node

def parts : Node → List Layout
  | member inner => inner.parts
  | type inner => inner.parts
  | stmt inner => inner.parts
  | expr inner => inner.parts

def layout : Node → Layout
  | member inner => inner.layout
  | type inner => inner.layout
  | stmt inner => inner.layout
  | expr inner => inner.layout

def expr? : Node → Option Expr
  | expr inner => some inner
  | _ => none

theorem layout_eq (node : Node) :
    node.layout = .branch node.range node.expr? node.parts := by
  cases node <;> rfl

end Node

namespace CompilationUnit

def parts (unit : CompilationUnit) : List Layout :=
  unit.members.map (·.layout) ++ [.token unit.eof]

def layout (unit : CompilationUnit) : Layout := .node ⟨0, unit.eof + 1⟩ unit.parts

/-- The tokens whose indices the tree stores, from left to right. -/
def stored (unit : CompilationUnit) : List Nat := Layout.storedOf unit.parts

/-- The uses of features in the tree, from left to right. -/
def uses (unit : CompilationUnit) : List FeatureUse := Layout.usesOf unit.parts

end CompilationUnit
end TolerantSyntax
