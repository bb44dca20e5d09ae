import TolerantSyntax.Proofs.Recovery.Entry

/-!
# All nodes of a tree

The subtree of a node is the node itself and, behind it, the subtrees of all that is stored
in it.  It is read off the syntax: every part that can hold a member, a type, a statement or
an expression is gone through, in the order in which the parts are stored.  The names of
`using` directives and namespaces are types as well, and can be counted in.
-/

namespace TolerantSyntax

mutual

def TypeSyntax.subtree (type : TypeSyntax) : List Node :=
  .type type :: match type with
    | .generic _ _ _ args _ => elementSubtrees args
    | .qualified _ left _ right => left.subtree ++ right.subtree
    | .array _ inner _ | .pointer _ inner _ | .nullable _ inner _ | .byRef _ _ inner =>
        inner.subtree
    | .tuple _ _ elements _ => elementSubtrees elements
    | .predefined .. | .named .. | .missing _ => []

def ElementType.subtree : ElementType → List Node
  | .mk _ _ _ type _ => type.subtree

def elementSubtrees : List ElementType → List Node
  | [] => []
  | element :: rest => element.subtree ++ elementSubtrees rest

end

theorem elementSubtrees_eq (elements : List ElementType) :
    elementSubtrees elements = elements.flatMap fun element => element.type.subtree := by
  induction elements with
  | nil => rfl
  | cons element rest ih =>
      obtain ⟨range, readonly?, skippedRef?, type, name?⟩ := element
      rw [elementSubtrees, ih, ElementType.subtree]
      rfl

theorem TypeSyntax.subtree_eq (type : TypeSyntax) :
    type.subtree = .type type :: type.children.flatMap (·.subtree) := by
  cases type <;> simp [subtree, children, elementSubtrees_eq, List.flatMap_map]

def TypeArguments.subtrees (args : TypeArguments) : List Node := elementSubtrees args.args

mutual

def Expr.subtree (expr : Expr) : List Node :=
  .expr expr :: match expr with
    | .genericName _ _ args => args.subtrees
    | .parenthesized _ inner | .unary _ _ inner | .step _ _ inner | .refExpr _ _ inner
    | .throwExpr _ _ inner => inner.subtree
    | .tuple _ elements | .arrayInitializer _ elements => exprSubtrees elements
    | .memberAccess _ receiver _ _ args? =>
        receiver.subtree ++ args?.toList.flatMap (·.subtrees)
    | .invocation _ callee args | .elementAccess _ callee args =>
        callee.subtree ++ args.subtrees
    | .binary _ _ left right | .assign _ _ left right => left.subtree ++ right.subtree
    | .conditional _ condition whenTrue whenFalse =>
        condition.subtree ++ whenTrue.subtree ++ whenFalse.subtree
    | .isType _ operand type | .asType _ operand type => operand.subtree ++ type.subtree
    | .cast _ type operand => type.subtree ++ operand.subtree
    | .newObject _ _ type args? items? =>
        type.subtree ++ argumentListSubtrees? args? ++ exprSubtrees? items?
    | .newArray _ _ element ranks items? =>
        element.subtree ++ rankSubtrees ranks ++ exprSubtrees? items?
    | .defaultValue _ _ type? => type?.toList.flatMap (·.subtree)
    | .typeOf _ _ type => type.subtree
    | .literal .. | .name .. | .thisRef .. | .baseRef .. | .predefinedType .. | .missing _ => []

def Argument.subtree : Argument → List Node
  | .mk _ value => value.subtree

def ArgumentList.subtrees : ArgumentList → List Node
  | .mk _ args _ => argumentSubtrees args

def SizedRank.subtrees : SizedRank → List Node
  | .mk _ _ sizes _ => exprSubtrees sizes

def exprSubtrees : List Expr → List Node
  | [] => []
  | expr :: rest => expr.subtree ++ exprSubtrees rest

def exprSubtrees? : Option Expr → List Node
  | none => []
  | some expr => expr.subtree

def argumentSubtrees : List Argument → List Node
  | [] => []
  | arg :: rest => arg.subtree ++ argumentSubtrees rest

def argumentListSubtrees? : Option ArgumentList → List Node
  | none => []
  | some list => list.subtrees

def rankSubtrees : List SizedRank → List Node
  | [] => []
  | rank :: rest => rank.subtrees ++ rankSubtrees rest

end

def Declarator.subtrees (declarator : Declarator) : List Node := exprSubtrees? declarator.value?

mutual

def Stmt.subtree (stmt : Stmt) : List Node :=
  .stmt stmt :: match stmt with
    | .block _ block => block.subtrees
    | .declaration _ decl => decl.type.subtree ++ decl.declarators.flatMap (·.subtrees)
    | .expression _ expr _ => expr.subtree
    | .returnStmt _ _ _ value? _ | .throwStmt _ _ value? _ => exprSubtrees? value?
    | .ifElse _ _ condition whenTrue whenFalse? =>
        condition.subtree ++ whenTrue.subtree ++ stmtSubtrees? whenFalse?
    | .whileLoop _ _ condition body => condition.subtree ++ body.subtree
    | .empty .. | .skipped _ => []

def Block.subtrees : Block → List Node
  | .mk _ _ stmts _ => stmtSubtrees stmts

def stmtSubtrees : List Stmt → List Node
  | [] => []
  | stmt :: rest => stmt.subtree ++ stmtSubtrees rest

def stmtSubtrees? : Option Stmt → List Node
  | none => []
  | some stmt => stmt.subtree

end

def Parameter.subtrees (parameter : Parameter) : List Node :=
  parameter.type.subtree ++ exprSubtrees? parameter.value?

def ParameterList.subtrees (list : ParameterList) : List Node := list.params.flatMap (·.subtrees)

def MemberBody.subtrees : MemberBody → List Node
  | block body => body.subtrees
  | arrow body => body.expr.subtree
  | semicolon _ => []

def PropertyBody.subtrees : PropertyBody → List Node
  | accessors _ list _ => list.flatMap (·.body.subtrees)
  | arrow body => body.expr.subtree

def nameSubtree (named : Bool) (name : TypeSyntax) : List Node :=
  if named then name.subtree else []

mutual

def Member.subtree (named : Bool) (member : Member) : List Node :=
  .member member :: match member with
    | .field _ type declarators _ => type.subtree ++ declarators.flatMap (·.subtrees)
    | .method _ type _ _ params body | .operator _ type _ _ params body =>
        type.subtree ++ params.subtrees ++ body.subtrees
    | .property _ type _ body => type.subtree ++ body.subtrees
    | .indexer _ type _ params body => type.subtree ++ params.subtrees ++ body.subtrees
    | .constructor _ _ params body => params.subtrees ++ body.subtrees
    | .delegate _ _ type _ _ params _ => type.subtree ++ params.subtrees
    | .typeDecl _ head _ members _ _ =>
        head.bases.flatMap (·.subtree) ++ memberSubtrees named members
    | .namespaceDecl _ _ name _ members _ =>
        nameSubtree named name ++ memberSubtrees named members
    | .usingDirective _ _ name _ => nameSubtree named name
    | .incomplete _ type? => type?.toList.flatMap (·.subtree)
    | .skipped _ => []

def memberSubtrees (named : Bool) : List Member → List Node
  | [] => []
  | member :: rest => member.subtree named ++ memberSubtrees named rest

end

/-! ## Nodes -/

namespace Node

def subtree (named : Bool) : Node → List Node
  | member inner => inner.subtree named
  | type inner => inner.subtree
  | stmt inner => inner.subtree
  | expr inner => inner.subtree

/-- The nodes that a node holds without another node in between. -/
def held (named : Bool) (node : Node) : List Node :=
  (if named then node.name?.toList.map .type else []) ++ node.children

end Node

section Parts

variable (named : Bool)

theorem exprSubtrees_eq (exprs : List Expr) :
    exprSubtrees exprs = (exprs.map Node.expr).flatMap (·.subtree named) := by
  induction exprs with
  | nil => rfl
  | cons expr rest ih =>
      rw [exprSubtrees, ih]
      rfl

theorem exprSubtrees?_eq (expr? : Option Expr) :
    exprSubtrees? expr? = (expr?.toList.map Node.expr).flatMap (·.subtree named) := by
  cases expr? <;> simp [exprSubtrees?, Node.subtree]

theorem TypeSyntax.subtrees_eq (types : List TypeSyntax) :
    types.flatMap (·.subtree) = (types.map Node.type).flatMap (·.subtree named) := by
  rw [List.flatMap_map]
  rfl

theorem TypeArguments.subtrees_eq (args : TypeArguments) :
    args.subtrees = args.nodes.flatMap (·.subtree named) := by
  rw [subtrees, elementSubtrees_eq, nodes, List.flatMap_map]
  rfl

theorem ArgumentList.subtrees_eq (list : ArgumentList) :
    list.subtrees = list.nodes.flatMap (·.subtree named) := by
  obtain ⟨opening, args, closing?⟩ := list
  rw [subtrees]
  induction args with
  | nil => rfl
  | cons arg rest ih =>
      obtain ⟨modifier?, value⟩ := arg
      rw [argumentSubtrees, ih]
      rfl

theorem rankSubtrees_eq (ranks : List SizedRank) :
    rankSubtrees ranks = (ranks.flatMap (·.nodes)).flatMap (·.subtree named) := by
  induction ranks with
  | nil => rfl
  | cons rank rest ih =>
      obtain ⟨opening, dimensions, sizes, closing?⟩ := rank
      rw [rankSubtrees, ih, SizedRank.subtrees, exprSubtrees_eq named, List.flatMap_cons,
        List.flatMap_append]
      rfl

theorem argumentListSubtrees?_eq (list? : Option ArgumentList) :
    argumentListSubtrees? list? =
      (list?.toList.flatMap (·.nodes)).flatMap (·.subtree named) := by
  cases list? <;> simp [argumentListSubtrees?, ArgumentList.subtrees_eq named]

theorem Expr.subtree_eq (expr : Expr) :
    expr.subtree = .expr expr :: expr.children.flatMap (·.subtree named) := by
  cases expr with
  | memberAccess info receiver dot name? args? =>
      cases args? <;> simp [subtree, children, Node.subtree, TypeArguments.subtrees_eq named]
  | defaultValue info keyword type? =>
      cases type? <;> simp [subtree, children, Node.subtree]
  | _ =>
      simp [subtree, children, Node.subtree, TypeArguments.subtrees_eq named,
        ArgumentList.subtrees_eq named, exprSubtrees_eq named, exprSubtrees?_eq named,
        rankSubtrees_eq named, argumentListSubtrees?_eq named]

theorem Declarator.subtrees_eq (declarators : List Declarator) :
    declarators.flatMap (·.subtrees) =
      (declarators.flatMap (·.nodes)).flatMap (·.subtree named) := by
  rw [List.flatMap_assoc]
  exact List.flatMap_congr fun declarator _ => exprSubtrees?_eq named declarator.value?

theorem stmtSubtrees_eq (stmts : List Stmt) :
    stmtSubtrees stmts = (stmts.map Node.stmt).flatMap (·.subtree named) := by
  induction stmts with
  | nil => rfl
  | cons stmt rest ih =>
      rw [stmtSubtrees, ih]
      rfl

theorem Block.subtrees_eq (block : Block) :
    block.subtrees = (block.stmts.map Node.stmt).flatMap (·.subtree named) := by
  obtain ⟨range, opening, stmts, closing?⟩ := block
  exact stmtSubtrees_eq named stmts

theorem Stmt.subtree_eq (stmt : Stmt) :
    stmt.subtree = .stmt stmt :: stmt.children.flatMap (·.subtree named) := by
  cases stmt with
  | ifElse range keyword condition whenTrue whenFalse? =>
      cases whenFalse? <;> simp [subtree, children, Node.subtree, stmtSubtrees?]
  | _ =>
      simp [subtree, children, Node.subtree, Block.subtrees_eq named, exprSubtrees?_eq named,
        Declarator.subtrees_eq named]

theorem ParameterList.subtrees_eq (list : ParameterList) :
    list.subtrees = list.nodes.flatMap (·.subtree named) := by
  rw [subtrees, nodes, List.flatMap_assoc]
  refine List.flatMap_congr fun parameter _ => ?_
  rw [Parameter.subtrees, exprSubtrees?_eq named, Parameter.nodes, List.flatMap_cons]
  rfl

theorem MemberBody.subtrees_eq (body : MemberBody) :
    body.subtrees = body.nodes.flatMap (·.subtree named) := by
  cases body with
  | block body => exact body.subtrees_eq named
  | arrow body => simp [subtrees, nodes, Node.subtree]
  | semicolon semicolon? => rfl

theorem PropertyBody.subtrees_eq (body : PropertyBody) :
    body.subtrees = body.nodes.flatMap (·.subtree named) := by
  cases body with
  | accessors opening? list closing? =>
      rw [subtrees, nodes, List.flatMap_assoc]
      exact List.flatMap_congr fun accessor _ => accessor.body.subtrees_eq named
  | arrow body => simp [subtrees, nodes, Node.subtree]

theorem memberSubtrees_eq (members : List Member) :
    memberSubtrees named members = (members.map Node.member).flatMap (·.subtree named) := by
  induction members with
  | nil => rfl
  | cons member rest ih =>
      rw [memberSubtrees, ih]
      rfl

theorem Member.subtree_eq (member : Member) :
    member.subtree named =
      .member member :: ((Node.member member).held named).flatMap (·.subtree named) := by
  cases member with
  | usingDirective info keyword name semicolon? =>
      cases named <;> simp [subtree, nameSubtree, Node.held, Node.name?, Node.children,
        children, Node.subtree]
  | namespaceDecl info keyword name opening? members closing? =>
      cases named <;> simp [subtree, nameSubtree, Node.held, Node.name?, Node.children,
        children, Node.subtree, memberSubtrees_eq]
  | _ =>
      simp [subtree, Node.held, Node.name?, Node.children, children, Node.subtree,
        TypeSyntax.subtrees_eq named, Declarator.subtrees_eq named, memberSubtrees_eq,
        ParameterList.subtrees_eq named, MemberBody.subtrees_eq named,
        PropertyBody.subtrees_eq named]

end Parts

/-- The subtree of a node is the node and, behind it, the subtrees of what it holds. -/
theorem Node.subtree_eq (named : Bool) (node : Node) :
    node.subtree named = node :: (node.held named).flatMap (subtree named) := by
  cases node with
  | member inner => exact inner.subtree_eq named
  | type inner =>
      have hheld : (type inner).held named = inner.children.map .type := by
        cases named <;> rfl
      rw [hheld, List.flatMap_map]
      exact inner.subtree_eq
  | stmt inner =>
      have hheld : (stmt inner).held named = inner.children := by cases named <;> rfl
      rw [hheld]
      exact inner.subtree_eq named
  | expr inner =>
      have hheld : (expr inner).held named = inner.children := by cases named <;> rfl
      rw [hheld]
      exact inner.subtree_eq named

end TolerantSyntax
