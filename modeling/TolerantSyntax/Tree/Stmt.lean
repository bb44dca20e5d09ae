import TolerantSyntax.Tree.Expr
import TolerantSyntax.Tree.Modifier

/-!
# Statement trees
-/

namespace TolerantSyntax

structure Declarator where
  name? : Option Nat
  eq? : Option Nat
  value? : Option Expr

structure LocalDeclaration where
  modifiers : ModifierSet
  type : TypeSyntax
  declarators : List Declarator
  semicolon? : Option Nat

mutual

inductive Stmt where
  | block (range : TokenRange) (block : Block)
  | declaration (range : TokenRange) (decl : LocalDeclaration)
  | expression (range : TokenRange) (expr : Expr) (semicolon? : Option Nat)
  | returnStmt (range : TokenRange) (keyword : Nat) (ref? : Option Nat) (value? : Option Expr)
      (semicolon? : Option Nat)
  | throwStmt (range : TokenRange) (keyword : Nat) (value? : Option Expr) (semicolon? : Option Nat)
  | ifElse (range : TokenRange) (keyword : Nat) (condition : Expr) (whenTrue : Stmt)
      (whenFalse? : Option Stmt)
  | whileLoop (range : TokenRange) (keyword : Nat) (condition : Expr) (body : Stmt)
  | empty (range : TokenRange) (semicolon : Nat)
  | skipped (range : TokenRange)

inductive Block where
  | mk (range : TokenRange) (opening : Nat) (stmts : List Stmt) (closing? : Option Nat)

end

namespace Block

def range : Block → TokenRange
  | mk range .. => range

def stmts : Block → List Stmt
  | mk _ _ stmts _ => stmts

end Block

namespace Stmt

instance : Inhabited Stmt := ⟨.skipped default⟩

def range : Stmt → TokenRange
  | block range _ | declaration range _ | expression range .. | returnStmt range ..
  | throwStmt range .. | ifElse range .. | whileLoop range .. | empty range _
  | skipped range => range

end Stmt
end TolerantSyntax
