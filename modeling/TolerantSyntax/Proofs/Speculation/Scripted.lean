import Mathlib.Tactic.Choose
import TolerantSyntax.Proofs.Speculation.Procedure

/-!
# Productions that have a script

`Scripted parse` says that `parse`, in whatever context, is the script of some procedure as the
grammar carries it out.  The rules follow the lines of a production: a step, a choice, a loop,
an attempt, a body that is entered.
-/

namespace TolerantSyntax.Parse

variable {α β γ : Type}

def Scripted (parse : ParseContext → Parse α) : Prop :=
  ∃ procedure : Procedure α, ∀ context, procedure.script.parse context = parse context

namespace Scripted

theorem pure (value : α) : Scripted fun _ => Pure.pure value := ⟨.pure value, fun _ => rfl⟩

theorem bind {parse : ParseContext → Parse α} {next : α → ParseContext → Parse β}
    (h : Scripted parse) (hnext : ∀ value, Scripted (next value)) :
    Scripted fun context => parse context >>= fun value => next value context := by
  obtain ⟨script, hscript⟩ := h
  choose scripts hscripts using hnext
  refine ⟨.bind script scripts, fun context => ?_⟩
  simp only [Procedure.script, Script.parse, hscript, hscripts]

theorem map {parse : ParseContext → Parse α} (h : Scripted parse) (f : α → β) :
    Scripted fun context => f <$> parse context := h.bind fun value => .pure (f value)

theorem ite {condition : Prop} [Decidable condition] {yes no : ParseContext → Parse α}
    (hyes : Scripted yes) (hno : Scripted no) :
    Scripted fun context => if condition then yes context else no context := by
  by_cases h : condition
  · simpa only [if_pos h] using hyes
  · simpa only [if_neg h] using hno

theorem asking (answer : ParseContext → γ) {parse : γ → ParseContext → Parse α}
    (h : ∀ value, Scripted (parse value)) :
    Scripted fun context => parse (answer context) context := by
  choose scripts hscripts using h
  exact ⟨.bind .askContext fun context => scripts (answer context),
    fun context => hscripts (answer context) context⟩

theorem within (leave enter : ParseContext) {parse : ParseContext → Parse α}
    (h : Scripted parse) : Scripted fun context => parse (context.replace leave enter) := by
  obtain ⟨script, hscript⟩ := h
  exact ⟨.within leave enter script, fun context => hscript _⟩

theorem ask (question : Sentence → Nat → α) : Scripted fun _ => ask question :=
  ⟨.ask question, fun _ => rfl⟩

theorem asked {question : Sentence → Nat → α} {next shown : α → ParseContext → Parse β}
    (h : ∀ value, Scripted (shown value))
    (heq : ∀ context (input : Input) (state : ParseState),
      let answer := question input.sentence state.position
      next answer context input state = shown answer context input state) :
    Scripted fun context => Parse.ask question >>= fun value => next value context := by
  obtain ⟨script, hscript⟩ := (ask question).bind h
  refine ⟨script, fun context => (hscript context).trans ?_⟩
  funext input state
  exact (heq context input state).symm

theorem advance : Scripted fun _ => advance := ⟨.advance, fun _ => rfl⟩

theorem noteHere (finding : Nat → Finding) : Scripted fun _ => noteHere finding :=
  ⟨.note finding, fun _ => rfl⟩

theorem note (finding : Finding) : Scripted fun _ => note finding := noteHere fun _ => finding

theorem moveTo {place : Sentence → Nat → Nat} (h : Sentence.Skips place) :
    Scripted fun _ => moveTo place := ⟨.moveTo place h, fun _ => rfl⟩

theorem synchronize (set : TokenSet) : Scripted fun _ => synchronize set :=
  moveTo fun _ _ => Sentence.seekWithin_bounds _ _ _

theorem complete (start : Nat) (make : ExprInfo → Expr) : Scripted fun _ => complete start make :=
  ⟨.complete start make, fun _ => rfl⟩

theorem check (kind : TokenKind) : Scripted fun _ => check kind := ask _

theorem atEnd : Scripted fun _ => atEnd := check .eof

theorem eat (kind : TokenKind) : Scripted fun _ => eat kind :=
  (ask _).bind fun _ => .ite (advance.bind fun _ => .pure _) (.pure _)

theorem expect (kind : TokenKind) : Scripted fun _ => expect kind := by
  refine (eat kind).bind fun index? => ?_
  cases index? with
  | some index => exact .pure _
  | none => exact (noteHere _).bind fun _ => .pure _

theorem attempt {parse : Parse (Option α)} (h : Scripted fun _ => parse) :
    Scripted fun _ => attempt parse := by
  obtain ⟨script, hscript⟩ := h
  exact ⟨.attempt script, fun context => congrArg Parse.attempt (hscript _)⟩

theorem lookAhead {parse : Parse α} (h : Scripted fun _ => parse) :
    Scripted fun _ => lookAhead parse := by
  obtain ⟨script, hscript⟩ := h
  exact ⟨.lookAhead script, fun context => congrArg Parse.lookAhead (hscript _)⟩

theorem many {item : ParseContext → Parse (Option α)} (h : Scripted item) :
    Scripted fun context => many (item context) := by
  have hwithin : ∀ n, Scripted fun context => manyWithin (item context) n := by
    intro n
    induction n with
    | zero => exact .pure _
    | succ n ih =>
        refine h.bind fun value? => ?_
        cases value? with
        | none => exact .pure _
        | some value => exact ih.bind fun _ => .pure _
  exact (ask _).bind hwithin

theorem grow {step : α → ParseContext → Parse (Option α)} (h : ∀ value, Scripted (step value))
    (value : α) : Scripted fun context => grow (fun value => step value context) value := by
  have hwithin : ∀ n value,
      Scripted fun context => growWithin (fun value => step value context) n value := by
    intro n
    induction n with
    | zero => exact fun value => .pure _
    | succ n ih =>
        refine fun value => (h value).bind fun grown? => ?_
        cases grown? with
        | none => exact .pure _
        | some grown => exact ih grown
  exact (ask _).bind fun n => hwithin n value

theorem separated {item : ParseContext → Parse α} (h : Scripted item) :
    Scripted fun context => separated (item context) := by
  have hwithin : ∀ n, Scripted fun context => separatedWithin (item context) n := by
    intro n
    induction n with
    | zero => exact h.bind fun _ => .pure _
    | succ n ih =>
        refine h.bind fun _ => (eat _).bind fun comma? => ?_
        cases comma? with
        | none => exact .pure _
        | some comma => exact ih.bind fun _ => .pure _
  exact (ask _).bind hwithin

theorem listed {item : ParseContext → Parse α} (h : Scripted item) (closing : TokenKind) :
    Scripted fun context => listed (item context) closing := by
  have hwithin : ∀ n, Scripted fun context => listedWithin (item context) closing n := by
    intro n
    induction n with
    | zero => exact .pure _
    | succ n ih =>
        refine (ask _).bind fun closed => atEnd.bind fun ended => ?_
        refine .ite (.pure _) (h.bind fun _ => (eat _).bind fun comma? => ?_)
        cases comma? with
        | none => exact .pure _
        | some comma => exact ih.bind fun _ => .pure _
  exact (ask _).bind hwithin

theorem whenever {condition : ParseContext → Parse Bool} {parse : ParseContext → Parse α}
    (hcondition : Scripted condition) (h : Scripted parse) :
    Scripted fun context => whenever (condition context) (parse context) :=
  hcondition.bind fun _ => .ite (h.bind fun _ => .pure _) (.pure _)

theorem unlessClosed {parse : ParseContext → Parse α} (h : Scripted parse) :
    Scripted fun context => unlessClosed (parse context) :=
  whenever (ask _) h

theorem braced {items : ParseContext → Parse (List α)} (h : Scripted items) :
    Scripted fun context => braced (items context) := by
  refine (expect _).bind fun opening? => ?_
  cases opening? with
  | none => exact .pure _
  | some opening => exact h.bind fun _ => (expect _).bind fun _ => .pure _

end Scripted
end TolerantSyntax.Parse
