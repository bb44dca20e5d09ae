import TolerantSyntax.SyntaxTree
import TolerantSyntax.Tree.Walk

/-!
# Outlines

A tree as indented text: a line for every node, two spaces deeper than that of its
parent. A type is a single line, without the types inside it.
-/

namespace TolerantSyntax

def TypeSyntax.label (type : TypeSyntax) : String :=
  match type.refKind with
  | .byRef => "type (ref)"
  | .readonlyRef => "type (ref readonly)"
  | .none => if type.isMissing then "missing type" else "type"

def Stmt.label : Stmt → String
  | block .. => "block"
  | declaration .. => "local"
  | expression .. => "expression statement"
  | returnStmt _ _ ref? _ _ => if ref?.isSome then "return ref" else "return"
  | throwStmt .. => "throw"
  | ifElse .. => "if"
  | whileLoop .. => "while"
  | empty .. => "empty"
  | skipped _ => "skipped tokens"

def Expr.label : Expr → String
  | literal .. => "literal"
  | name .. | genericName .. => "name"
  | thisRef .. => "this"
  | baseRef .. => "base"
  | predefinedType .. => "predefined type"
  | parenthesized .. => "parenthesized"
  | tuple .. => "tuple"
  | memberAccess .. => "member access"
  | invocation .. => "invocation"
  | elementAccess .. => "element access"
  | unary .. => "unary"
  | step .. => "postfix"
  | binary .. => "binary"
  | assign .. => "assignment"
  | conditional .. => "conditional"
  | isType .. => "is"
  | asType .. => "as"
  | cast .. => "cast"
  | newObject .. => "object creation"
  | newArray .. => "array creation"
  | arrayInitializer .. => "array initializer"
  | defaultValue .. => "default"
  | typeOf .. => "typeof"
  | refExpr .. => "ref"
  | throwExpr .. => "throw"
  | missing _ => "missing expression"

namespace SyntaxTree

def memberName? (tree : SyntaxTree) : Member → Option String
  | .method _ _ name .. | .property _ _ name _ | .constructor _ name .. =>
      some (tree.tokenText name)
  | .indexer _ _ this .. => some (tree.tokenText this)
  | .operator _ _ _ op? .. => op?.map tree.text
  | .delegate _ _ _ name? .. => name?.map tree.tokenText
  | .typeDecl _ head .. => head.name?.map tree.tokenText
  | .namespaceDecl _ _ name .. | .usingDirective _ _ name _ => some (tree.text name.range)
  | .field .. | .incomplete .. | .skipped _ => none

def memberLine (tree : SyntaxTree) (member : Member) : String :=
  String.intercalate " "
    (member.modifiers.modifiers.map (·.text) ++ [member.label] ++ (tree.memberName? member).toList)

/-- A label with the text of a node, if it has one. -/
def quotedLine (tree : SyntaxTree) (label : String) (range : TokenRange) : String :=
  let text := tree.text range
  if text.isEmpty then label else label ++ " `" ++ text ++ "`"

def nodeLine (tree : SyntaxTree) : Node → String
  | .member member => tree.memberLine member
  | .type type => tree.quotedLine type.label type.range
  | .stmt stmt => stmt.label
  | .expr expr => tree.quotedLine expr.label expr.range

def visitLine (tree : SyntaxTree) (visit : Visit) : String :=
  String.ofList (List.replicate (2 * visit.depth) ' ') ++ tree.nodeLine visit.node ++ "\n"

def outline (tree : SyntaxTree) : String :=
  String.join ((tree.root.walk false).map tree.visitLine)

end SyntaxTree
end TolerantSyntax
