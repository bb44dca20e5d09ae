import TolerantSyntax.Tree.Type

/-!
# Expression trees

Every expression has a number: expressions are numbered in the order in which they are
complete, so that children come before their parents.
-/

namespace TolerantSyntax

inductive UnaryOp where
  | plus | neg | not | bitNot | preIncrement | preDecrement | deref | addressOf
deriving DecidableEq, Repr, Inhabited

inductive StepOp where
  | increment | decrement
deriving DecidableEq, Repr, Inhabited

inductive BinaryOp where
  | add | sub | mul | div | rem | shl | shr | lt | ltEq | gt | gtEq | eq | notEq
  | bitAnd | bitXor | bitOr | and | or | coalesce
deriving DecidableEq, Repr, Inhabited

inductive AssignOp where
  | assign | add | sub | mul | div | rem | bitAnd | bitOr | bitXor | shl
deriving DecidableEq, Repr, Inhabited

/-- What every expression has: its number and the tokens that it covers. -/
structure ExprInfo where
  id : Nat
  range : TokenRange
deriving DecidableEq, Repr, Inhabited

mutual

inductive Expr where
  | literal (info : ExprInfo) (token : Nat)
  | name (info : ExprInfo) (token : Nat)
  | genericName (info : ExprInfo) (name : Nat) (args : TypeArguments)
  | thisRef (info : ExprInfo) (token : Nat)
  | baseRef (info : ExprInfo) (token : Nat)
  | predefinedType (info : ExprInfo) (token : Nat)
  | parenthesized (info : ExprInfo) (inner : Expr)
  | tuple (info : ExprInfo) (elements : List Expr)
  | memberAccess (info : ExprInfo) (receiver : Expr) (dot : Nat) (name? : Option Nat)
      (args? : Option TypeArguments)
  | invocation (info : ExprInfo) (callee : Expr) (args : ArgumentList)
  | elementAccess (info : ExprInfo) (receiver : Expr) (args : ArgumentList)
  | unary (info : ExprInfo) (op : UnaryOp) (operand : Expr)
  | step (info : ExprInfo) (op : StepOp) (operand : Expr)
  | binary (info : ExprInfo) (op : BinaryOp) (left right : Expr)
  | assign (info : ExprInfo) (op : AssignOp) (target value : Expr)
  | conditional (info : ExprInfo) (condition whenTrue whenFalse : Expr)
  | isType (info : ExprInfo) (operand : Expr) (type : TypeSyntax)
  | asType (info : ExprInfo) (operand : Expr) (type : TypeSyntax)
  | cast (info : ExprInfo) (type : TypeSyntax) (operand : Expr)
  | newObject (info : ExprInfo) (keyword : Nat) (type : TypeSyntax) (args? : Option ArgumentList)
      (initializer? : Option Expr)
  | newArray (info : ExprInfo) (keyword : Nat) (element : TypeSyntax) (ranks : List SizedRank)
      (initializer? : Option Expr)
  | arrayInitializer (info : ExprInfo) (elements : List Expr)
  | defaultValue (info : ExprInfo) (keyword : Nat) (type? : Option TypeSyntax)
  | typeOf (info : ExprInfo) (keyword : Nat) (type : TypeSyntax)
  | refExpr (info : ExprInfo) (keyword : Nat) (operand : Expr)
  | throwExpr (info : ExprInfo) (keyword : Nat) (operand : Expr)
  /-- An expression was required and none was there. -/
  | missing (info : ExprInfo)

inductive Argument where
  | mk (modifier? : Option Nat) (value : Expr)

inductive ArgumentList where
  | mk (opening : Nat) (args : List Argument) (closing? : Option Nat)

inductive SizedRank where
  | mk (opening dimensions : Nat) (sizes : List Expr) (closing? : Option Nat)

end

namespace ArrayRank

def toSized (rank : ArrayRank) : SizedRank := .mk rank.opening rank.dimensions [] rank.closing?

end ArrayRank

namespace Argument

def value : Argument → Expr
  | mk _ value => value

end Argument

namespace ArgumentList

def args : ArgumentList → List Argument
  | mk _ args _ => args

end ArgumentList

namespace Expr

instance : Inhabited Expr := ⟨.missing default⟩

def info : Expr → ExprInfo
  | literal info _ | name info _ | genericName info .. | thisRef info _ | baseRef info _
  | predefinedType info _ | parenthesized info _ | tuple info _ | memberAccess info ..
  | invocation info .. | elementAccess info .. | unary info .. | step info .. | binary info ..
  | assign info .. | conditional info .. | isType info .. | asType info .. | cast info ..
  | newObject info .. | newArray info .. | arrayInitializer info _ | defaultValue info ..
  | typeOf info .. | refExpr info .. | throwExpr info .. | missing info => info

def id (expr : Expr) : Nat := expr.info.id

def range (expr : Expr) : TokenRange := expr.info.range

end Expr

/-! ## Expression tables -/

/-- All expressions of a tree, each at its number. -/
structure ExprTable where
  exprs : Array Expr

namespace ExprTable

def empty : ExprTable := ⟨#[]⟩

def size (table : ExprTable) : Nat := table.exprs.size

def get? (table : ExprTable) (id : Nat) : Option Expr := table.exprs[id]?

def toList (table : ExprTable) : List Expr := table.exprs.toList

/-- Adds an expression: gives it the next number. -/
def add (table : ExprTable) (range : TokenRange) (make : ExprInfo → Expr) : Expr × ExprTable :=
  let expr := make ⟨table.size, range⟩
  (expr, ⟨table.exprs.push expr⟩)

def truncate (table : ExprTable) (n : Nat) : ExprTable := ⟨table.exprs.take n⟩

end ExprTable
end TolerantSyntax
