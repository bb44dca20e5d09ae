import TolerantSyntax.Grammar.Parse

/-!
# What a parse ends with

`Ends parse input state post` says that the value and the state that `parse` ends with
satisfy `post`.  A parse never fails, so this is all there is to say about one run.  The
rules follow the shape of a production line by line: a question, a step, a choice.
-/

namespace TolerantSyntax.Parse

variable {α β γ : Type} {input : Input} {state : ParseState}

def Ends (parse : Parse α) (input : Input) (state : ParseState)
    (post : α → ParseState → Prop) : Prop :=
  post (parse input state).1 (parse input state).2

namespace Ends

theorem pure {value : α} {post : α → ParseState → Prop} (h : post value state) :
    Ends (Pure.pure value) input state post := h

theorem imp {parse : Parse α} {post weaker : α → ParseState → Prop}
    (h : Ends parse input state post)
    (himp : ∀ value after, post value after → weaker value after) :
    Ends parse input state weaker := himp _ _ h

theorem bind {parse : Parse α} {next : α → Parse β} {middle : α → ParseState → Prop}
    {post : β → ParseState → Prop} (h : Ends parse input state middle)
    (hnext : ∀ value after, middle value after → Ends (next value) input after post) :
    Ends (parse >>= next) input state post := hnext _ _ h

theorem behind {parse : Parse α} {next : α → Parse β} {post : β → ParseState → Prop}
    (h : ∀ value after, Ends (next value) input after post) :
    Ends (parse >>= next) input state post := h _ _

theorem pureBind {value : α} {next : α → Parse β} {post : β → ParseState → Prop}
    (h : Ends (next value) input state post) :
    Ends (Pure.pure value >>= next) input state post := h

theorem map {parse : Parse α} {f : α → β} {post : β → ParseState → Prop}
    (h : Ends parse input state fun value after => post (f value) after) :
    Ends (f <$> parse) input state post := h

theorem ask {question : Sentence → Nat → α} {next : α → Parse β}
    {post : β → ParseState → Prop}
    (h : ∀ answer, question input.sentence state.position = answer →
      Ends (next answer) input state post) :
    Ends (Parse.ask question >>= next) input state post := h _ rfl

theorem position {next : Nat → Parse β} {post : β → ParseState → Prop}
    (h : Ends (next state.position) input state post) :
    Ends (Parse.position >>= next) input state post := h

theorem rangeFrom {start : Nat} {next : TokenRange → Parse β}
    {post : β → ParseState → Prop}
    (h : Ends (next ⟨start, max start state.position⟩) input state post) :
    Ends (Parse.rangeFrom start >>= next) input state post := h

theorem left {next : Nat → Parse β} {post : β → ParseState → Prop}
    (h : Ends (next (input.sentence.left state.position)) input state post) :
    Ends (Parse.left >>= next) input state post := h

theorem kind {next : TokenKind → Parse β} {post : β → ParseState → Prop}
    (h : ∀ kind, input.sentence.kindAt state.position = kind →
      Ends (next kind) input state post) :
    Ends (Parse.kind >>= next) input state post := h _ rfl

theorem ite {condition : Prop} [Decidable condition] {yes no : Parse β}
    {post : β → ParseState → Prop}
    (hyes : condition → Ends yes input state post)
    (hno : ¬condition → Ends no input state post) :
    Ends (if condition then yes else no) input state post := by
  by_cases h : condition
  · rw [if_pos h]
    exact hyes h
  · rw [if_neg h]
    exact hno h

theorem askIf {question : Sentence → Nat → Bool} {yes no : Parse β}
    {post : β → ParseState → Prop}
    (hyes : question input.sentence state.position = true → Ends yes input state post)
    (hno : question input.sentence state.position = false → Ends no input state post) :
    Ends (Parse.ask question >>= fun answer => if answer then yes else no)
      input state post :=
  ite hyes fun h => hno (by simpa using h)

theorem checkIf {kind : TokenKind} {yes no : Parse β} {post : β → ParseState → Prop}
    (hyes : input.sentence.kindAt state.position = kind → Ends yes input state post)
    (hno : input.sentence.kindAt state.position ≠ kind → Ends no input state post) :
    Ends (check kind >>= fun answer => if answer then yes else no) input state post :=
  askIf (fun h => hyes (by simpa using h)) fun h => hno (by simpa using h)

theorem join {condition : Prop} [Decidable condition] {yes no : Parse α}
    {next : α → Parse β} {middle : α → ParseState → Prop} {post : β → ParseState → Prop}
    (h : Ends (if condition then yes else no) input state middle)
    (hnext : ∀ value after, middle value after → Ends (next value) input after post) :
    Ends (if condition then yes >>= next else no >>= next) input state post := by
  refine ite (fun hyes => ?_) fun hno => ?_
  · rw [if_pos hyes] at h
    exact h.bind hnext
  · rw [if_neg hno] at h
    exact h.bind hnext

theorem skip {condition : Prop} [Decidable condition] {step : Parse PUnit}
    {next : PUnit → Parse β} (middle : ParseState → Prop) {post : β → ParseState → Prop}
    (hyes : condition → Ends step input state fun _ after => middle after)
    (hno : ¬condition → middle state)
    (hnext : ∀ after, middle after → Ends (next ⟨⟩) input after post) :
    Ends (if condition then step >>= next else next ⟨⟩) input state post := by
  refine ite (fun hcondition => ?_) fun hcondition => ?_
  · exact (hyes hcondition).bind fun _ after hmiddle => hnext after hmiddle
  · exact hnext state (hno hcondition)

theorem noteHere {finding : Nat → Finding} {next : Unit → Parse β}
    {post : β → ParseState → Prop}
    (h : Ends (next ()) input
      { state with findings := finding state.position :: state.findings } post) :
    Ends (Parse.noteHere finding >>= next) input state post := h

theorem advance_eq (hkind : input.sentence.kindAt state.position ≠ .eof) :
    Parse.advance input state =
      (state.position, { state with position := state.position + 1 }) := by
  unfold Parse.advance
  rw [if_neg hkind]

theorem advance_at_end (hkind : input.sentence.kindAt state.position = .eof) :
    Ends Parse.advance input state fun _ after => after = state := by
  unfold Ends Parse.advance
  rw [if_pos hkind]

theorem advance {next : Nat → Parse β} {post : β → ParseState → Prop}
    (hkind : input.sentence.kindAt state.position ≠ .eof)
    (h : Ends (next state.position) input { state with position := state.position + 1 } post) :
    Ends (Parse.advance >>= next) input state post := by
  have hadvance : Ends Parse.advance input state fun index after =>
      (index, after) = (state.position, { state with position := state.position + 1 }) :=
    advance_eq hkind
  refine hadvance.bind fun index after heq => ?_
  cases heq
  exact h

end Ends
end TolerantSyntax.Parse
