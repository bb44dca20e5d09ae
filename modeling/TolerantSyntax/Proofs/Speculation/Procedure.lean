import TolerantSyntax.Proofs.Speculation.Script

/-!
# Scripts that scan

A procedure is a script in which the question where a type ends is a step of its own, so that
it can be carried out with whatever scanner answers the question.  A scanner may remember what
it found.  To go back takes nothing back of what is remembered, and when the scanner answers
truly the parser ends as that of the script does.
-/

namespace TolerantSyntax

inductive Procedure : Type → Type 1 where
  | pure {α : Type} (value : α) : Procedure α
  | bind {α β : Type} (first : Procedure α) (next : α → Procedure β) : Procedure β
  | ask {α : Type} (question : Sentence → Nat → α) : Procedure α
  | scan (ahead : Nat) : Procedure (Option Nat)
  | advance : Procedure Nat
  | moveTo (place : Sentence → Nat → Nat) (h : Sentence.Skips place) : Procedure Unit
  | note (finding : Nat → Finding) : Procedure Unit
  | complete (start : Nat) (make : ExprInfo → Expr) : Procedure Expr
  | askContext : Procedure ParseContext
  | within {α : Type} (leave enter : ParseContext) (body : Procedure α) : Procedure α
  | lookAhead {α : Type} (body : Procedure α) : Procedure α
  | attempt {α : Type} (body : Procedure (Option α)) : Procedure (Option α)

namespace Procedure

/-- The script that reads the ends of tuple types off the input. -/
def script : {α : Type} → Procedure α → Script α
  | _, .pure value => .pure value
  | _, .bind first next => .bind first.script fun value => (next value).script
  | _, .ask question => .ask fun input => question input.sentence
  | _, .scan ahead => .ask fun input index =>
      input.sentence.typeEnd? input.tupleEnd (index + ahead)
  | _, .advance => .advance
  | _, .moveTo place h => .moveTo place h
  | _, .note finding => .note finding
  | _, .complete start make => .complete start make
  | _, .askContext => .askContext
  | _, .within leave enter body => .within leave enter body.script
  | _, .lookAhead body => .lookAhead body.script
  | _, .attempt body => .attempt body.script

instance {α : Type} : Coe (Procedure α) (Script α) := ⟨script⟩

abbrev Scanner (σ : Type) := Nat → StateM σ (Option Nat)

/-- The procedure carried out in place.  What is remembered is no part of what is set back. -/
def run {σ : Type} (scanner : Scanner σ) (setting : ParserSetting) :
    {α : Type} → Procedure α → σ → Parser → (α × Parser) × σ
  | _, .pure value, memory, parser => ((value, parser), memory)
  | _, .bind first next, memory, parser =>
      let ((value, after), memory) := first.run scanner setting memory parser
      (next value).run scanner setting memory after
  | _, .ask question, memory, parser =>
      ((question setting.input.sentence parser.position, parser), memory)
  | _, .scan ahead, memory, parser =>
      let (stop?, memory) := (scanner (parser.position + ahead)).run memory
      ((stop?, parser), memory)
  | _, .advance, memory, parser => (parser.advance setting, memory)
  | _, .moveTo place _, memory, parser =>
      (((), { parser with position := place setting.input.sentence parser.position }), memory)
  | _, .note finding, memory, parser =>
      (((), parser.note setting (finding parser.position)), memory)
  | _, .complete start make, memory, parser => (parser.complete start make, memory)
  | _, .askContext, memory, parser => ((parser.context, parser), memory)
  | _, .within leave enter body, memory, parser =>
      let ((value, after), memory) := body.run scanner setting memory
        { parser with context := parser.context.replace leave enter }
      ((value, { after with context := parser.context }), memory)
  | _, .lookAhead body, memory, parser =>
      let ((value, after), memory) := body.run scanner setting memory parser.speculate
      ((value, after.restore parser.snapshot), memory)
  | _, .attempt body, memory, parser =>
      match body.run scanner setting memory parser.speculate with
      | ((some value, after), memory) =>
          ((some value, { after with context := parser.context }), memory)
      | ((none, after), memory) => ((none, after.restore parser.snapshot), memory)

/-- While the scanner says where types end, it makes no difference what is remembered. -/
theorem run_eq_script {σ : Type} {scanner : Scanner σ} {setting : ParserSetting}
    {known : σ → Prop}
    (hscan : ∀ index memory, known memory →
      ((scanner index).run memory).1 =
          setting.input.sentence.typeEnd? setting.input.tupleEnd index ∧
        known ((scanner index).run memory).2)
    {α : Type} (procedure : Procedure α) {memory : σ} (hmemory : known memory) (parser : Parser) :
    (procedure.run scanner setting memory parser).1 = procedure.script.run setting parser ∧
      known (procedure.run scanner setting memory parser).2 := by
  induction procedure generalizing memory parser with
  | pure | ask | advance | moveTo | note | complete | askContext => exact ⟨rfl, hmemory⟩
  | bind first next hfirst hnext =>
      obtain ⟨hvalue, hafter⟩ := hfirst hmemory parser
      have hrest := hnext (first.run scanner setting memory parser).1.1 hafter
        (first.run scanner setting memory parser).1.2
      rw [script, Script.run, ← hvalue]
      exact hrest
  | scan ahead =>
      obtain ⟨hstop, hafter⟩ := hscan (parser.position + ahead) memory hmemory
      exact ⟨congrArg (fun stop? => (stop?, parser)) hstop, hafter⟩
  | within leave enter body hbody =>
      obtain ⟨hvalue, hafter⟩ := hbody hmemory
        { parser with context := parser.context.replace leave enter }
      rw [script, Script.run, ← hvalue]
      exact ⟨rfl, hafter⟩
  | lookAhead body hbody =>
      obtain ⟨hvalue, hafter⟩ := hbody hmemory parser.speculate
      rw [script, Script.run, Parser.lookAhead, ← hvalue]
      exact ⟨rfl, hafter⟩
  | attempt body hbody =>
      obtain ⟨hvalue, hafter⟩ := hbody hmemory parser.speculate
      rw [script, Script.run, Parser.attempt, ← hvalue, run]
      revert hafter
      rcases body.run scanner setting memory parser.speculate with ⟨⟨_ | value, after⟩, remembered⟩
      · exact fun hafter => ⟨rfl, hafter⟩
      · exact fun hafter => ⟨rfl, hafter⟩

end Procedure
end TolerantSyntax
