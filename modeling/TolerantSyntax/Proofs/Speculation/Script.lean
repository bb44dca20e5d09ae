import TolerantSyntax.Proofs.Parse.Covers
import TolerantSyntax.SyntaxTree

/-!
# Going back by cutting off

A script is what a production does, step by step, with the attempts in it.  It can be carried
out in two ways.  The grammar's own way hands the bodies around the current place down, and
drops the state of an attempt that is given up.  The other way has a single parser that is
changed in place: its context is set and set back, and to go back its diagnostics and its
expressions are cut off at the length that they had.  Both ways come to the same, because no
step takes back or rewrites what was there before it.
-/

namespace TolerantSyntax

def Sentence.Skips (place : Sentence → Nat → Nat) : Prop :=
  ∀ sentence index, index ≤ place sentence index ∧
    place sentence index ≤ index + sentence.left index

inductive Script : Type → Type 1 where
  | pure {α : Type} (value : α) : Script α
  | bind {α β : Type} (first : Script α) (next : α → Script β) : Script β
  | ask {α : Type} (question : Input → Nat → α) : Script α
  | advance : Script Nat
  | moveTo (place : Sentence → Nat → Nat) (h : Sentence.Skips place) : Script Unit
  | note (finding : Nat → Finding) : Script Unit
  | complete (start : Nat) (make : ExprInfo → Expr) : Script Expr
  | askContext : Script ParseContext
  | within {α : Type} (leave enter : ParseContext) (body : Script α) : Script α
  | lookAhead {α : Type} (body : Script α) : Script α
  | attempt {α : Type} (body : Script (Option α)) : Script (Option α)

/-- The script as the grammar carries it out, in a context that is handed down. -/
def Script.parse : {α : Type} → Script α → ParseContext → Parse α
  | _, .pure value, _ => Pure.pure value
  | _, .bind first next, context => first.parse context >>= fun value => (next value).parse context
  | _, .ask question, _ => fun input state => (question input state.position, state)
  | _, .advance, _ => Parse.advance
  | _, .moveTo place _, _ => Parse.moveTo place
  | _, .note finding, _ => Parse.noteHere finding
  | _, .complete start make, _ => Parse.complete start make
  | _, .askContext, context => Pure.pure context
  | _, .within leave enter body, context => body.parse (context.replace leave enter)
  | _, .lookAhead body, context => Parse.lookAhead (body.parse (context.union .attempt))
  | _, .attempt body, context => Parse.attempt (body.parse (context.union .attempt))

/-! ## A parser that is changed in place -/

structure Parser where
  position : Nat
  context : ParseContext
  diagnostics : DiagnosticBag
  exprs : ExprTable

structure ParserSetting where
  source : String
  tokens : TokenList
  version : LanguageVersion
  input : Input

structure Snapshot where
  position : Nat
  context : ParseContext
  diagnostics : Nat
  exprs : Nat
deriving DecidableEq, Repr

namespace Parser

def snapshot (parser : Parser) : Snapshot :=
  ⟨parser.position, parser.context, parser.diagnostics.size, parser.exprs.size⟩

def restore (parser : Parser) (snapshot : Snapshot) : Parser :=
  ⟨snapshot.position, snapshot.context, parser.diagnostics.truncate snapshot.diagnostics,
    parser.exprs.truncate snapshot.exprs⟩

def speculate (parser : Parser) : Parser :=
  { parser with context := parser.context.union .attempt }

def advance (setting : ParserSetting) (parser : Parser) : Nat × Parser :=
  if setting.input.sentence.kindAt parser.position = .eof then (parser.position, parser)
  else (parser.position, { parser with position := parser.position + 1 })

def note (setting : ParserSetting) (finding : Finding) (parser : Parser) : Parser :=
  let found := finding.diagnostic? setting.source setting.tokens setting.version
  { parser with diagnostics := parser.diagnostics.extend found.toList }

def complete (start : Nat) (make : ExprInfo → Expr) (parser : Parser) : Expr × Parser :=
  let (expr, exprs) := parser.exprs.add ⟨start, max start parser.position⟩ make
  (expr, { parser with exprs })

def lookAhead {α : Type} (body : Parser → α × Parser) (parser : Parser) : α × Parser :=
  let (value, after) := body parser.speculate
  (value, after.restore parser.snapshot)

def attempt {α : Type} (body : Parser → Option α × Parser) (parser : Parser) :
    Option α × Parser :=
  match body parser.speculate with
  | (some value, after) => (some value, { after with context := parser.context })
  | (none, after) => (none, after.restore parser.snapshot)

end Parser

/-- The script as it is carried out in place. -/
def Script.run (setting : ParserSetting) : {α : Type} → Script α → Parser → α × Parser
  | _, .pure value, parser => (value, parser)
  | _, .bind first next, parser =>
      let (value, after) := first.run setting parser
      (next value).run setting after
  | _, .ask question, parser => (question setting.input parser.position, parser)
  | _, .advance, parser => parser.advance setting
  | _, .moveTo place _, parser =>
      ((), { parser with position := place setting.input.sentence parser.position })
  | _, .note finding, parser => ((), parser.note setting (finding parser.position))
  | _, .complete start make, parser => parser.complete start make
  | _, .askContext, parser => (parser.context, parser)
  | _, .within leave enter body, parser =>
      let (value, after) :=
        body.run setting { parser with context := parser.context.replace leave enter }
      (value, { after with context := parser.context })
  | _, .lookAhead body, parser => parser.lookAhead (body.run setting)
  | _, .attempt body, parser => parser.attempt (body.run setting)

/-- Diagnostics and expressions are only added, the context is the same, and the place is
further on, but not behind the end. -/
structure Parser.Extends (sentence : Sentence) (before after : Parser) : Prop where
  diagnostics : before.diagnostics.diagnostics <+: after.diagnostics.diagnostics
  exprs : before.exprs.toList <+: after.exprs.toList
  context : after.context = before.context
  forward : before.position ≤ after.position
  within : after.position ≤ max before.position sentence.size

namespace Parser

variable {sentence : Sentence} {before middle after parser : Parser}

namespace Extends

theorem refl : Extends sentence before before :=
  ⟨List.prefix_refl _, List.prefix_refl _, rfl, Nat.le_refl _, Nat.le_max_left ..⟩

theorem trans (hleft : Extends sentence before middle) (hright : Extends sentence middle after) :
    Extends sentence before after where
  diagnostics := hleft.diagnostics.trans hright.diagnostics
  exprs := hleft.exprs.trans hright.exprs
  context := hright.context.trans hleft.context
  forward := Nat.le_trans hleft.forward hright.forward
  within := by
    have := hleft.within
    have := hright.within
    omega

theorem move {place : Nat} (hforward : before.position ≤ place)
    (hwithin : place ≤ max before.position sentence.size) :
    Extends sentence before { before with position := place } :=
  ⟨List.prefix_refl _, List.prefix_refl _, rfl, hforward, hwithin⟩

theorem setBack {context : ParseContext}
    (h : Extends sentence { before with context } after) :
    Extends sentence before { after with context := before.context } :=
  ⟨h.diagnostics, h.exprs, rfl, h.forward, h.within⟩

/-- Cutting off what was added gives back the parser as a whole. -/
theorem restore (h : Extends sentence parser.speculate after) :
    after.restore parser.snapshot = parser := by
  obtain ⟨position, context, ⟨diagnostics⟩, ⟨exprs⟩⟩ := parser
  have hdiagnostics : after.diagnostics.diagnostics.take diagnostics.length = diagnostics :=
    (List.prefix_iff_eq_take.mp h.diagnostics).symm
  have hexprs : after.exprs.exprs.take exprs.size = exprs := by
    have hprefix := List.prefix_iff_eq_take.mp h.exprs
    apply Array.toList_inj.mp
    simpa [ExprTable.toList, speculate] using hprefix.symm
  simp [Parser.restore, snapshot, DiagnosticBag.truncate, DiagnosticBag.size, ExprTable.truncate,
    ExprTable.size, hdiagnostics, hexprs]

end Extends

variable (setting : ParserSetting)

theorem advance_extends (parser : Parser) :
    Extends setting.input.sentence parser (parser.advance setting).2 := by
  unfold advance
  split
  · exact .refl
  · rename_i hkind
    have hlt : parser.position < setting.input.sentence.size :=
      Sentence.lt_size_of_kindAt hkind
    refine .move (Nat.le_succ _) ?_
    omega

theorem note_extends (finding : Finding) (parser : Parser) :
    Extends setting.input.sentence parser (parser.note setting finding) :=
  ⟨List.prefix_append .., List.prefix_refl _, rfl, Nat.le_refl _, Nat.le_max_left ..⟩

theorem complete_extends (start : Nat) (make : ExprInfo → Expr) (parser : Parser) :
    Extends sentence parser (parser.complete start make).2 :=
  ⟨List.prefix_refl _, by simp [complete, ExprTable.add, ExprTable.toList], rfl, Nat.le_refl _,
    Nat.le_max_left ..⟩

section Attempt

variable {α : Type}

theorem lookAhead_eq {body : Parser → α × Parser}
    (h : Extends sentence parser.speculate (body parser.speculate).2) :
    parser.lookAhead body = ((body parser.speculate).1, parser) :=
  congrArg (Prod.mk (body parser.speculate).1) h.restore

theorem attempt_eq {body : Parser → Option α × Parser}
    (h : Extends sentence parser.speculate (body parser.speculate).2) :
    parser.attempt body =
      ((body parser.speculate).1,
        if (body parser.speculate).1.isSome then
          { (body parser.speculate).2 with context := parser.context }
        else parser) := by
  unfold attempt
  revert h
  rcases body parser.speculate with ⟨_ | value, after⟩
  · intro h
    exact congrArg (Prod.mk none) h.restore
  · intro _
    rfl

end Attempt

end Parser

theorem Script.run_extends (setting : ParserSetting) {α : Type} (script : Script α)
    (parser : Parser) :
    Parser.Extends setting.input.sentence parser (script.run setting parser).2 := by
  induction script generalizing parser with
  | pure | ask | askContext => exact .refl
  | bind first next hfirst hnext => exact (hfirst parser).trans (hnext _ _)
  | advance => exact parser.advance_extends setting
  | moveTo place h =>
      obtain ⟨hforward, hwithin⟩ := h setting.input.sentence parser.position
      refine .move hforward ?_
      unfold Sentence.left at hwithin
      omega
  | note finding => exact parser.note_extends setting _
  | complete start make => exact parser.complete_extends start make
  | within leave enter body hbody => exact (hbody _).setBack
  | lookAhead body hbody =>
      rw [run, Parser.lookAhead_eq (hbody _)]
      exact .refl
  | attempt body hbody =>
      rw [run, Parser.attempt_eq (hbody _)]
      dsimp only
      split
      · exact (hbody _).setBack
      · exact .refl

/-! ## Both ways agree -/

/-- The parser that is where a parse is, with the diagnostics that were there before it. -/
def ParseState.parser (setting : ParserSetting) (earlier : List Diagnostic)
    (context : ParseContext) (state : ParseState) : Parser :=
  ⟨state.position, context,
    ⟨earlier ++ SyntaxTree.findingsIn setting.source setting.tokens setting.version state⟩,
    state.exprs⟩

theorem ParseState.start_parser (setting : ParserSetting) (earlier : List Diagnostic) :
    start.parser setting earlier .none = ⟨0, .none, ⟨earlier⟩, .empty⟩ := by
  simp [parser, start, SyntaxTree.findingsIn]

theorem SyntaxTree.findingsIn_cons (source : String) (tokens : TokenList)
    (version : LanguageVersion) (state : ParseState) (finding : Finding) :
    findingsIn source tokens version { state with findings := finding :: state.findings } =
      findingsIn source tokens version state ++
        (finding.diagnostic? source tokens version).toList := by
  rw [findingsIn, List.reverse_cons, List.filterMap_append]
  congr 1

theorem ParseState.note_parser (setting : ParserSetting) (earlier : List Diagnostic)
    (context : ParseContext) (state : ParseState) (finding : Finding) :
    (state.parser setting earlier context).note setting finding =
      { state with findings := finding :: state.findings }.parser setting earlier context := by
  simp [parser, Parser.note, DiagnosticBag.extend, SyntaxTree.findingsIn_cons]

/-- The parser that is changed in place gives what the grammar gives, and ends where it ends. -/
theorem Script.run_eq_parse (setting : ParserSetting) (earlier : List Diagnostic) {α : Type}
    (script : Script α) (context : ParseContext) (state : ParseState) :
    script.run setting (state.parser setting earlier context) =
      ((script.parse context setting.input state).1,
        (script.parse context setting.input state).2.parser setting earlier context) := by
  induction script generalizing context state with
  | pure | ask | askContext | moveTo => rfl
  | bind first next hfirst hnext =>
      rw [run, hfirst]
      exact hnext _ _ _
  | advance =>
      have hposition : (state.parser setting earlier context).position = state.position := rfl
      unfold run parse Parser.advance Parse.advance
      rw [hposition]
      dsimp only
      split <;> rfl
  | note finding => exact congrArg (Prod.mk ()) (state.note_parser setting earlier context _)
  | complete start make => rfl
  | within leave enter body hbody =>
      have hinner := hbody (context.replace leave enter) state
      exact congrArg (fun result : _ × Parser => (result.1, { result.2 with context })) hinner
  | lookAhead body hbody =>
      have hinner := hbody (context.union .attempt) state
      rw [run, Parser.lookAhead_eq (body.run_extends setting _)]
      exact congrArg (fun result => (result.1, state.parser setting earlier context)) hinner
  | attempt body hbody =>
      have hinner := hbody (context.union .attempt) state
      have hspeculate : (state.parser setting earlier context).speculate =
          state.parser setting earlier (context.union .attempt) := rfl
      rw [run, Parser.attempt_eq (body.run_extends setting _), hspeculate, hinner, parse,
        Parse.attempt]
      generalize body.parse (context.union .attempt) setting.input state = result
      obtain ⟨value?, after⟩ := result
      cases value? <;> rfl

end TolerantSyntax
