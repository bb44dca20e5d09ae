import TolerantSyntax.Tree.Member

/-!
# Nodes

Members, types, statements and expressions are the nodes of a tree. The children of a
node are the nodes that it holds without another node in between, in the order of the
text. The names of `using` directives and namespaces are no children.
-/

namespace TolerantSyntax

def TypeSyntax.children : TypeSyntax → List TypeSyntax
  | generic _ _ _ args _ => args.map (·.type)
  | qualified _ left _ right => [left, right]
  | array _ inner _ | pointer _ inner _ | nullable _ inner _ | byRef _ _ inner => [inner]
  | tuple _ _ elements _ => elements.map (·.type)
  | predefined .. | named .. | missing _ => []

inductive Node where
  | member (member : Member)
  | type (type : TypeSyntax)
  | stmt (stmt : Stmt)
  | expr (expr : Expr)

namespace TypeArguments

def nodes (args : TypeArguments) : List Node := args.args.map fun element => .type element.type

end TypeArguments

namespace ArgumentList

def nodes (list : ArgumentList) : List Node := list.args.map fun arg => .expr arg.value

end ArgumentList

namespace SizedRank

def sizes : SizedRank → List Expr
  | mk _ _ sizes _ => sizes

def nodes (rank : SizedRank) : List Node := rank.sizes.map .expr

end SizedRank

namespace Expr

def children : Expr → List Node
  | genericName _ _ args => args.nodes
  | parenthesized _ inner => [.expr inner]
  | tuple _ elements | arrayInitializer _ elements => elements.map .expr
  | memberAccess _ receiver _ _ none => [.expr receiver]
  | memberAccess _ receiver _ _ (some args) => .expr receiver :: args.nodes
  | invocation _ callee args => .expr callee :: args.nodes
  | elementAccess _ receiver args => .expr receiver :: args.nodes
  | unary _ _ operand | step _ _ operand | refExpr _ _ operand | throwExpr _ _ operand =>
      [.expr operand]
  | binary _ _ left right => [.expr left, .expr right]
  | assign _ _ target value => [.expr target, .expr value]
  | conditional _ condition whenTrue whenFalse =>
      [.expr condition, .expr whenTrue, .expr whenFalse]
  | isType _ operand type | asType _ operand type => [.expr operand, .type type]
  | cast _ type operand => [.type type, .expr operand]
  | newObject _ _ type args? items? =>
      .type type :: (args?.toList.flatMap (·.nodes) ++ items?.toList.map .expr)
  | newArray _ _ element ranks items? =>
      .type element :: (ranks.flatMap (·.nodes) ++ items?.toList.map .expr)
  | defaultValue _ _ type? => type?.toList.map .type
  | typeOf _ _ type => [.type type]
  | literal .. | name .. | thisRef .. | baseRef .. | predefinedType .. | missing _ => []

end Expr

def Declarator.nodes (declarator : Declarator) : List Node :=
  declarator.value?.toList.map .expr

namespace Stmt

def children : Stmt → List Node
  | block _ body => body.stmts.map .stmt
  | declaration _ decl => .type decl.type :: decl.declarators.flatMap (·.nodes)
  | expression _ expr _ => [.expr expr]
  | returnStmt _ _ _ value? _ | throwStmt _ _ value? _ => value?.toList.map .expr
  | ifElse _ _ condition whenTrue whenFalse? =>
      .expr condition :: .stmt whenTrue :: whenFalse?.toList.map .stmt
  | whileLoop _ _ condition body => [.expr condition, .stmt body]
  | empty .. | skipped _ => []

end Stmt

def Parameter.nodes (parameter : Parameter) : List Node :=
  .type parameter.type :: parameter.value?.toList.map .expr

def ParameterList.nodes (list : ParameterList) : List Node := list.params.flatMap (·.nodes)

def MemberBody.nodes : MemberBody → List Node
  | block body => body.stmts.map .stmt
  | arrow body => [.expr body.expr]
  | semicolon _ => []

def PropertyBody.nodes : PropertyBody → List Node
  | accessors _ list _ => list.flatMap (·.body.nodes)
  | arrow body => [.expr body.expr]

namespace Member

def children : Member → List Node
  | field _ type declarators _ => .type type :: declarators.flatMap (·.nodes)
  | method _ type _ _ params body | operator _ type _ _ params body =>
      .type type :: (params.nodes ++ body.nodes)
  | property _ type _ body => .type type :: body.nodes
  | indexer _ type _ params body => .type type :: (params.nodes ++ body.nodes)
  | constructor _ _ params body => params.nodes ++ body.nodes
  | delegate _ _ type _ _ params _ => .type type :: params.nodes
  | typeDecl _ head _ members _ _ => head.bases.map .type ++ members.map .member
  | namespaceDecl _ _ _ _ members _ => members.map .member
  | incomplete _ type? => type?.toList.map .type
  | usingDirective .. | skipped _ => []

end Member

namespace Node

def children : Node → List Node
  | member inner => inner.children
  | type inner => inner.children.map .type
  | stmt inner => inner.children
  | expr inner => inner.children

def range : Node → TokenRange
  | member inner => inner.range
  | type inner => inner.range
  | stmt inner => inner.range
  | expr inner => inner.range

end Node
end TolerantSyntax
