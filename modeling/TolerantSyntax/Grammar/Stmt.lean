import TolerantSyntax.Grammar.Expr
import TolerantSyntax.Tree.Stmt

/-!
# The grammar of statements

A statement always takes a symbol, except at the end: what starts none is skipped. So
the statements of a block end at its `}` or at the end.
-/

namespace TolerantSyntax.Parse

def declarator : Parse Declarator := do
  let name? ← expect .identifier
  match ← eat .eq with
  | none => return ⟨name?, none, none⟩
  | some eq => return ⟨name?, some eq, some (← variableValue)⟩

def declarators : Parse (List Declarator) := separated declarator

def eatModifier (modifier : Modifier) (keyword : TokenKind) (set : ModifierSet) :
    Parse ModifierSet := do
  match ← eat keyword with
  | none => return set
  | some token => return set.push modifier token

def localDeclaration : Parse LocalDeclaration := do
  let constant ← eatModifier .constKw .constKw .empty
  let qualifier? ← refQualifier?
  let modifiers ←
    if qualifier?.isNone then eatModifier .readonlyKw .readonlyKw constant else pure constant
  let type ← qualifiedType qualifier?
  let declarators ← declarators
  let semicolon? ← expect .semicolon
  return ⟨modifiers, type, declarators, semicolon?⟩

def typeAndName : Parse Bool := do
  let type ← type
  if !type.isMissing && (← check .identifier) then
    return TokenSet.declaratorFollow.contains (← peek 1)
  else return false

def startsDeclaration : Parse Bool := do
  if ← checkAny .typeStart then lookAhead typeAndName else return false

def blockOf (nested : Parse Stmt) : Parse Block := do
  let start ← position
  let opening ← advance
  let stmts ← many (unlessClosed nested)
  let closing? ← expect .rBrace
  return .mk (← rangeFrom start) opening stmts closing?

def returned? : Parse (Option Expr) := do
  if ← check .semicolon then return none else return some (← expr)

def condition : Parse Expr := do
  let _ ← expect .lParen
  let condition ← expr
  let _ ← expect .rParen
  return condition

def returnStmt : Parse Stmt := do
  let start ← position
  let keyword ← advance
  if ← check .refKw then noteHere (.uses .refLocalsAndReturns)
  let ref? ← eat .refKw
  let value? ← returned?
  let semicolon? ← expect .semicolon
  return .returnStmt (← rangeFrom start) keyword ref? value? semicolon?

def throwStmt : Parse Stmt := do
  let start ← position
  let keyword ← advance
  let value? ← returned?
  let semicolon? ← expect .semicolon
  return .throwStmt (← rangeFrom start) keyword value? semicolon?

/-- An `else` belongs to the nearest `if`. -/
def ifElse (nested : Parse Stmt) : Parse Stmt := do
  let start ← position
  let keyword ← advance
  let condition ← condition
  let whenTrue ← nested
  let whenFalse? ←
    match ← eat .elseKw with
    | none => pure none
    | some _ => some <$> nested
  return .ifElse (← rangeFrom start) keyword condition whenTrue whenFalse?

def whileLoop (nested : Parse Stmt) : Parse Stmt := do
  let start ← position
  let keyword ← advance
  let condition ← condition
  let body ← nested
  return .whileLoop (← rangeFrom start) keyword condition body

def declarationStmt : Parse Stmt := do
  let start ← position
  let decl ← localDeclaration
  return .declaration (← rangeFrom start) decl

def expressionStmt : Parse Stmt := do
  let start ← position
  let expr ← expr
  let semicolon? ← expect .semicolon
  return .expression (← rangeFrom start) expr semicolon?

def skippedStmt : Parse Stmt := do
  let start ← position
  noteHere .invalidTerm
  let _ ← advance
  return .skipped (← rangeFrom start)

/-- A statement, given how the statements inside it are read. -/
def stmtStep (nested : Parse Stmt) : Parse Stmt := do
  match ← kind with
  | .lBrace => do
      let block ← blockOf nested
      return .block block.range block
  | .semicolon => do
      let semicolon ← advance
      return .empty (.single semicolon) semicolon
  | .returnKw => returnStmt
  | .throwKw => throwStmt
  | .ifKw => ifElse nested
  | .whileKw => whileLoop nested
  | .readonlyKw | .refKw | .constKw => declarationStmt
  | kind =>
      if !TokenSet.expressionStart.contains kind then skippedStmt
      else if ← startsDeclaration then declarationStmt
      else expressionStmt

def stmtWithin : Nat → Parse Stmt
  | 0 => skippedStmt
  | n + 1 => stmtStep (stmtWithin n)

def stmt : Parse Stmt := do stmtWithin (← left)

def block : Parse Block := blockOf stmt

end TolerantSyntax.Parse
