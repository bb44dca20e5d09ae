import TolerantSyntax.Proofs.Speculation.Production

/-!
# Two runs side by side

A production is given how the parts inside it are read.  `Paired` is about two runs of it that
differ in this alone: from the place on both do the same, and go forward.  The rules follow the
lines of a production.  A step that both runs share is a script, so it goes forward; from where
the inner parts are read alike, so is the production.
-/

namespace TolerantSyntax.Parse

variable {α β : Type} {input : Input} {state : ParseState}

def Onward (parse : Parse α) (input : Input) : Prop :=
  ∀ state, state.position ≤ (parse input state).2.position

theorem Scripted.onward {parse : ParseContext → Parse α} (h : Scripted parse)
    (context : ParseContext) : Onward (parse context) input := by
  obtain ⟨procedure, hscript⟩ := h
  intro state
  let setting : ParserSetting := ⟨"", ⟨#[]⟩, default, input⟩
  have hrun := procedure.script.run_eq_parse setting [] context state
  have hextends := procedure.script.run_extends setting (state.parser setting [] context)
  rw [hrun, hscript] at hextends
  exact hextends.forward

/-- Both parses do the same from here, and do not go back. -/
structure Paired (parse other : Parse α) (input : Input) (state : ParseState) : Prop where
  same : parse input state = other input state
  forward : state.position ≤ (parse input state).2.position

/-- Both parses do the same from here, and take a symbol. -/
structure Stepped (parse other : Parse α) (input : Input) (state : ParseState) : Prop where
  same : parse input state = other input state
  moved : state.position < (parse input state).2.position

/-- Paired wherever at least `floor` symbols have been passed. -/
def PairedFrom (floor : Nat) (parse other : Parse α) (input : Input) : Prop :=
  ∀ state, floor ≤ state.position → Paired parse other input state

theorem Onward.paired {parse : Parse α} (h : Onward parse input) :
    Paired parse parse input state := ⟨rfl, h state⟩

theorem Stepped.paired {parse other : Parse α} (h : Stepped parse other input state) :
    Paired parse other input state := ⟨h.same, Nat.le_of_lt h.moved⟩

theorem Stepped.advance {next next' : Nat → Parse β}
    (hkind : input.sentence.kindAt state.position ≠ .eof)
    (h : ∀ index after, state.position + 1 ≤ after.position →
      Paired (next index) (next' index) input after) :
    Stepped (Parse.advance >>= next) (Parse.advance >>= next') input state := by
  have hadvance : Ends Parse.advance input state fun _ after =>
      state.position + 1 ≤ after.position :=
    (advance_covers hkind).imp fun _ _ h => Nat.le_of_eq h.2.1.symm
  obtain ⟨hsame, hforward⟩ := h _ _ hadvance
  exact ⟨hsame, Nat.lt_of_lt_of_le hadvance hforward⟩

namespace Paired

theorem pure (value : α) : Paired (Pure.pure value) (Pure.pure value) input state :=
  ⟨rfl, Nat.le_refl _⟩

theorem bind {first other : Parse α} {next next' : α → Parse β}
    (h : Paired first other input state)
    (hnext : ∀ value after, state.position ≤ after.position →
      Paired (next value) (next' value) input after) :
    Paired (first >>= next) (other >>= next') input state := by
  obtain ⟨hsame, hforward⟩ := h
  have hbehind := hnext (first input state).1 (first input state).2 hforward
  refine ⟨?_, Nat.le_trans hforward hbehind.forward⟩
  have hother : (other >>= next') input state =
      next' (other input state).1 input (other input state).2 := rfl
  rw [hother, ← hsame]
  exact hbehind.same

theorem map {parse other : Parse α} (h : Paired parse other input state) (f : α → β) :
    Paired (f <$> parse) (f <$> other) input state := h.bind fun value _ _ => .pure (f value)

theorem behind {step : Parse α} {next next' : α → Parse β} {post : α → ParseState → Prop}
    (h : Ends step input state post)
    (hnext : ∀ value after, post value after →
      state.position ≤ after.position ∧ Paired (next value) (next' value) input after) :
    Paired (step >>= next) (step >>= next') input state := by
  obtain ⟨hforward, hsame, hbehind⟩ := hnext _ _ h
  exact ⟨hsame, Nat.le_trans hforward hbehind⟩

theorem after {step : Parse α} {next next' : α → Parse β} (h : Scripted fun _ => step)
    (hnext : ∀ value after, state.position ≤ after.position →
      Paired (next value) (next' value) input after) :
    Paired (step >>= next) (step >>= next') input state :=
  (h.onward .none).paired.bind hnext

theorem shared {parse : Parse α} (h : Scripted fun _ => parse) :
    Paired parse parse input state := (h.onward .none).paired

theorem ask {question : Sentence → Nat → α} {next next' : α → Parse β}
    (h : ∀ answer, question input.sentence state.position = answer →
      Paired (next answer) (next' answer) input state) :
    Paired (Parse.ask question >>= next) (Parse.ask question >>= next') input state :=
  ⟨(h _ rfl).same, (h _ rfl).forward⟩

theorem kind {next next' : TokenKind → Parse β}
    (h : ∀ kind, input.sentence.kindAt state.position = kind →
      Paired (next kind) (next' kind) input state) :
    Paired (Parse.kind >>= next) (Parse.kind >>= next') input state := .ask h

theorem left {next next' : Nat → Parse β}
    (h : Paired (next (input.sentence.left state.position))
      (next' (input.sentence.left state.position)) input state) :
    Paired (Parse.left >>= next) (Parse.left >>= next') input state := ⟨h.same, h.forward⟩

theorem advance {next next' : Nat → Parse β}
    (hkind : input.sentence.kindAt state.position ≠ .eof)
    (h : ∀ index after, state.position + 1 ≤ after.position →
      Paired (next index) (next' index) input after) :
    Paired (Parse.advance >>= next) (Parse.advance >>= next') input state :=
  (Stepped.advance hkind h).paired

theorem eat {kind : TokenKind} (hkind : kind ≠ .eof) {next next' : Option Nat → Parse β}
    (hyes : ∀ index after, state.position + 1 ≤ after.position →
      Paired (next (some index)) (next' (some index)) input after)
    (hno : Paired (next none) (next' none) input state) :
    Paired (Parse.eat kind >>= next) (Parse.eat kind >>= next') input state := by
  refine behind (eat_ends hkind) ?_
  rintro token? after (⟨-, rfl, rfl⟩ | ⟨-, rfl, rfl⟩)
  · exact ⟨Nat.le_succ _, hyes _ _ (Nat.le_refl _)⟩
  · exact ⟨Nat.le_refl _, hno⟩

theorem ite {condition : Prop} [Decidable condition] {yes no yes' no' : Parse β}
    (hyes : condition → Paired yes yes' input state)
    (hno : ¬condition → Paired no no' input state) :
    Paired (if condition then yes else no) (if condition then yes' else no') input state := by
  by_cases h : condition
  · simpa only [if_pos h] using hyes h
  · simpa only [if_neg h] using hno h

theorem join {condition : Prop} [Decidable condition] {yes no yes' no' : Parse α}
    {next next' : α → Parse β} (hyes : condition → Paired yes yes' input state)
    (hno : ¬condition → Paired no no' input state)
    (hnext : ∀ value after, state.position ≤ after.position →
      Paired (next value) (next' value) input after) :
    Paired (if condition then yes >>= next else no >>= next)
      (if condition then yes' >>= next' else no' >>= next') input state :=
  .ite (fun h => (hyes h).bind hnext) fun h => (hno h).bind hnext

theorem skip {condition : Prop} [Decidable condition] {step : Parse PUnit}
    {next next' : PUnit → Parse β} (h : Scripted fun _ => step)
    (hnext : ∀ after, state.position ≤ after.position →
      Paired (next ⟨⟩) (next' ⟨⟩) input after) :
    Paired (if condition then step >>= next else next ⟨⟩)
      (if condition then step >>= next' else next' ⟨⟩) input state :=
  .ite (fun _ => .after h fun _ => hnext) fun _ => hnext state (Nat.le_refl _)

theorem whenever {question : Sentence → Nat → Bool} {parse other : Parse α}
    (h : question input.sentence state.position = true → Paired parse other input state) :
    Paired (whenever (Parse.ask question) parse) (whenever (Parse.ask question) other)
      input state := by
  unfold Parse.whenever
  refine .ask fun answer hanswer => .ite (fun hyes => ?_) fun _ => .pure _
  exact (h (hanswer.trans hyes)).bind fun value after _ => .pure _

end Paired

namespace PairedFrom

variable {floor : Nat}

theorem many {item other : Parse (Option α)} (h : PairedFrom floor item other input) :
    PairedFrom floor (many item) (many other) input := by
  have hwithin : ∀ n, PairedFrom floor (manyWithin item n) (manyWithin other n) input := by
    intro n
    induction n with
    | zero => exact fun state _ => .pure _
    | succ n ih =>
        intro state hstate
        unfold manyWithin
        refine (h state hstate).bind fun value? after hafter => ?_
        cases value? with
        | none => exact .pure _
        | some value => exact (ih after (Nat.le_trans hstate hafter)).bind fun _ _ _ => .pure _
  exact fun state hstate => .left (hwithin _ state hstate)

theorem grow {step other : α → Parse (Option α)}
    (h : ∀ value, PairedFrom floor (step value) (other value) input) (value : α) :
    PairedFrom floor (grow step value) (grow other value) input := by
  have hwithin : ∀ n value,
      PairedFrom floor (growWithin step n value) (growWithin other n value) input := by
    intro n
    induction n with
    | zero => exact fun value state _ => .pure _
    | succ n ih =>
        intro value state hstate
        unfold growWithin
        refine (h value state hstate).bind fun grown? after hafter => ?_
        cases grown? with
        | none => exact .pure _
        | some grown => exact ih grown after (Nat.le_trans hstate hafter)
  exact fun state hstate => .left (hwithin _ value state hstate)

theorem separated {item other : Parse α} (h : PairedFrom floor item other input) :
    PairedFrom floor (separated item) (separated other) input := by
  have hwithin : ∀ n,
      PairedFrom floor (separatedWithin item n) (separatedWithin other n) input := by
    intro n
    induction n with
    | zero => exact fun state hstate => (h state hstate).bind fun _ _ _ => .pure _
    | succ n ih =>
        intro state hstate
        unfold separatedWithin
        refine (h state hstate).bind fun value after hafter => ?_
        refine .after (.eat .comma) fun comma? next hnext => ?_
        cases comma? with
        | none => exact .pure _
        | some comma => exact (ih next (by omega)).bind fun _ _ _ => .pure _
  exact fun state hstate => .left (hwithin _ state hstate)

theorem listed {item other : Parse α} (h : PairedFrom floor item other input)
    (closing : TokenKind) :
    PairedFrom floor (listed item closing) (listed other closing) input := by
  have hwithin : ∀ n,
      PairedFrom floor (listedWithin item closing n) (listedWithin other closing n) input := by
    intro n
    induction n with
    | zero => exact fun state _ => .pure _
    | succ n ih =>
        intro state hstate
        unfold listedWithin
        refine .after (.check _) fun closed after₁ h₁ => .after .atEnd fun ended after₂ h₂ => ?_
        refine .ite (fun _ => .pure _) fun _ => ?_
        refine (h after₂ (by omega)).bind fun value after hafter => ?_
        refine .after (.eat .comma) fun comma? next hnext => ?_
        cases comma? with
        | none => exact .pure _
        | some comma => exact (ih next (by omega)).bind fun _ _ _ => .pure _
  exact fun state hstate => .left (hwithin _ state hstate)

theorem braced {items other : Parse (List α)} (h : PairedFrom floor items other input)
    (hfloor : floor ≤ state.position + 1) :
    Paired (braced items) (braced other) input state := by
  unfold Parse.braced
  refine .behind (expect_ends (by decide)) ?_
  rintro opening? after (⟨-, rfl, rfl⟩ | ⟨-, rfl, rfl⟩)
  · refine ⟨Nat.le_succ _, ?_⟩
    exact (h _ hfloor).bind fun items _ _ => .shared ((Scripted.expect _).bind fun _ => .pure _)
  · exact ⟨Nat.le_refl _, .pure _⟩

end PairedFrom
end TolerantSyntax.Parse
