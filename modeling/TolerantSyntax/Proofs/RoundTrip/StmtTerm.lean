import TolerantSyntax.Proofs.RoundTrip.TypeTerm
import TolerantSyntax.Tree.Stmt

/-!
# Statement terms and how they are written

A statement term is a statement apart from any text.  It is written without braces that are not
its own.  So where an `if` has an `else`, no `if` without one may end its first branch: the
`else` would belong to that one.
-/

namespace TolerantSyntax

structure DeclaratorTerm where
  name : String
  value? : Option Term

inductive StmtTerm where
  | empty
  | block (stmts : List StmtTerm)
  | declaration (isConst : Bool) (type : TypeTerm) (declarators : List DeclaratorTerm)
  | expression (term : Term)
  | returnStmt (value? : Option Term)
  | throwStmt (value? : Option Term)
  | ifThen (condition : Term) (whenTrue : StmtTerm)
  | ifElse (condition : Term) (whenTrue whenFalse : StmtTerm)
  | whileLoop (condition : Term) (body : StmtTerm)

structure DeclaratorTerm.WellFormed (declarator : DeclaratorTerm) : Prop where
  name : Sign.IsToken .identifier declarator.name
  value : ∀ value ∈ declarator.value?, value.WellFormed

namespace StmtTerm

/-- Whether an `if` without `else` ends the statement. -/
def endsOpen : StmtTerm → Bool
  | ifThen .. => true
  | ifElse _ _ whenFalse => whenFalse.endsOpen
  | whileLoop _ body => body.endsOpen
  | _ => false

/-- Statements whose parts can be written, and where every `else` finds its own `if`. -/
inductive WellFormed : StmtTerm → Prop where
  | empty : WellFormed .empty
  | block {stmts : List StmtTerm} (hstmts : ∀ stmt ∈ stmts, WellFormed stmt) :
      WellFormed (.block stmts)
  | declaration (isConst : Bool) {type : TypeTerm} {declarators : List DeclaratorTerm}
      (htype : type.WellFormed) (htokens : ∀ sign ∈ type.signs, Sign.IsToken sign.kind sign.text)
      (hsome : declarators ≠ [])
      (hdeclarators : ∀ declarator ∈ declarators, declarator.WellFormed) :
      WellFormed (.declaration isConst type declarators)
  | expression {term : Term} (hterm : term.WellFormed) : WellFormed (.expression term)
  | returnStmt {value? : Option Term} (hvalue : ∀ value ∈ value?, value.WellFormed) :
      WellFormed (.returnStmt value?)
  | throwStmt {value? : Option Term} (hvalue : ∀ value ∈ value?, value.WellFormed) :
      WellFormed (.throwStmt value?)
  | ifThen {condition : Term} {whenTrue : StmtTerm} (hcondition : condition.WellFormed)
      (htrue : WellFormed whenTrue) : WellFormed (.ifThen condition whenTrue)
  | ifElse {condition : Term} {whenTrue whenFalse : StmtTerm}
      (hcondition : condition.WellFormed) (hclosed : whenTrue.endsOpen = false)
      (htrue : WellFormed whenTrue) (hfalse : WellFormed whenFalse) :
      WellFormed (.ifElse condition whenTrue whenFalse)
  | whileLoop {condition : Term} {body : StmtTerm} (hcondition : condition.WellFormed)
      (hbody : WellFormed body) : WellFormed (.whileLoop condition body)

end StmtTerm

def Term.signs? (value? : Option Term) : List Sign := value?.toList.flatMap Term.signs

def DeclaratorTerm.signs (declarator : DeclaratorTerm) : List Sign :=
  ⟨.identifier, declarator.name, false⟩ ::
    declarator.value?.toList.flatMap fun value => .fixed .eq :: value.signs

def declaratorSigns : List DeclaratorTerm → List Sign
  | [] => []
  | first :: rest =>
      first.signs ++ rest.flatMap fun declarator => .fixed .comma :: declarator.signs

def Term.conditionSigns (condition : Term) : List Sign :=
  .fixed .lParen :: (condition.signs ++ [.fixed .rParen])

mutual

def StmtTerm.signs : StmtTerm → List Sign
  | .empty => [.fixed .semicolon]
  | .block stmts => .fixed .lBrace :: (stmtSigns stmts ++ [.fixed .rBrace])
  | .declaration isConst type declarators =>
      (if isConst then [.fixed .constKw] else []) ++
        (type.signs ++ (declaratorSigns declarators ++ [.fixed .semicolon]))
  | .expression term => term.signs ++ [.fixed .semicolon]
  | .returnStmt value? => .fixed .returnKw :: (Term.signs? value? ++ [.fixed .semicolon])
  | .throwStmt value? => .fixed .throwKw :: (Term.signs? value? ++ [.fixed .semicolon])
  | .ifThen condition whenTrue => .fixed .ifKw :: (condition.conditionSigns ++ whenTrue.signs)
  | .ifElse condition whenTrue whenFalse =>
      .fixed .ifKw ::
        (condition.conditionSigns ++ (whenTrue.signs ++ .fixed .elseKw :: whenFalse.signs))
  | .whileLoop condition body => .fixed .whileKw :: (condition.conditionSigns ++ body.signs)

def stmtSigns : List StmtTerm → List Sign
  | [] => []
  | stmt :: rest => stmt.signs ++ stmtSigns rest

end

theorem stmtSigns_eq (stmts : List StmtTerm) : stmtSigns stmts = stmts.flatMap StmtTerm.signs := by
  induction stmts with
  | nil => rfl
  | cons stmt rest ih => rw [stmtSigns, ih, List.flatMap_cons]

def Expr.terms? (word : Nat → Spelling) : Option Expr → Option (Option Term)
  | none => some none
  | some expr => do return some (← expr.term? word)

def Declarator.term? (word : Nat → Spelling) (declarator : Declarator) :
    Option DeclaratorTerm := do
  return ⟨(word (← declarator.name?)).text, ← Expr.terms? word declarator.value?⟩

def declaratorTerms? (word : Nat → Spelling) : List Declarator → Option (List DeclaratorTerm)
  | [] => some []
  | declarator :: rest => do
      return (← declarator.term? word) :: (← declaratorTerms? word rest)

def ModifierSet.isConst? (modifiers : ModifierSet) : Option Bool :=
  match modifiers.entries with
  | [] => some false
  | [⟨.constKw, _⟩] => some true
  | _ => none

def LocalDeclaration.term? (word : Nat → Spelling) (decl : LocalDeclaration) :
    Option StmtTerm := do
  let _ ← decl.semicolon?
  return .declaration (← decl.modifiers.isConst?) (← decl.type.term? word)
    (← declaratorTerms? word decl.declarators)

mutual

/-- The term that a statement is, given how every token is spelled; none if a part is absent or
by reference. -/
def Stmt.term? (word : Nat → Spelling) : Stmt → Option StmtTerm
  | .empty _ _ => some .empty
  | .block _ block => do return .block (← block.terms? word)
  | .declaration _ decl => decl.term? word
  | .expression _ expr (some _) => do return .expression (← expr.term? word)
  | .returnStmt _ _ none value? (some _) => do return .returnStmt (← Expr.terms? word value?)
  | .throwStmt _ _ value? (some _) => do return .throwStmt (← Expr.terms? word value?)
  | .ifElse _ _ condition whenTrue none => do
      return .ifThen (← condition.term? word) (← whenTrue.term? word)
  | .ifElse _ _ condition whenTrue (some whenFalse) => do
      return .ifElse (← condition.term? word) (← whenTrue.term? word) (← whenFalse.term? word)
  | .whileLoop _ _ condition body => do
      return .whileLoop (← condition.term? word) (← body.term? word)
  | _ => none

def Block.terms? (word : Nat → Spelling) : Block → Option (List StmtTerm)
  | .mk _ _ stmts (some _) => stmtTerms? word stmts
  | .mk _ _ _ none => none

def stmtTerms? (word : Nat → Spelling) : List Stmt → Option (List StmtTerm)
  | [] => some []
  | stmt :: rest => do return (← stmt.term? word) :: (← stmtTerms? word rest)

end

attribute [simp] Stmt.term? stmtTerms?

end TolerantSyntax
