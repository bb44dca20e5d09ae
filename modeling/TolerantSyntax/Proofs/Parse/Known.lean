import TolerantSyntax.Proofs.Parse.Covers
import TolerantSyntax.Proofs.Parse.Loops

/-!
# Reading what is known

Where the symbols are known, so is what a single move does.  A parse that declines leaves no
trace, and a loop over it stops at once.
-/

namespace TolerantSyntax.Parse

variable {α β : Type} {input : Input} {state : ParseState}

section Symbols

variable {kind : TokenKind} {next : Option Nat → Parse α} {post : α → ParseState → Prop}

theorem Ends.eatTaken (hkind : input.sentence.kindAt state.position = kind) (heof : kind ≠ .eof)
    (h : Ends (next (some state.position)) input { state with position := state.position + 1 }
      post) :
    Ends (eat kind >>= next) input state post := by
  refine (eat_ends heof).bind ?_
  rintro _ _ (⟨-, rfl, rfl⟩ | ⟨hno, -, -⟩)
  · exact h
  · exact absurd hkind hno

theorem Ends.expectTaken (hkind : input.sentence.kindAt state.position = kind)
    (heof : kind ≠ .eof)
    (h : Ends (next (some state.position)) input { state with position := state.position + 1 }
      post) :
    Ends (expect kind >>= next) input state post := by
  refine (expect_ends heof).bind ?_
  rintro _ _ (⟨-, rfl, rfl⟩ | ⟨hno, -, -⟩)
  · exact h
  · exact absurd hkind hno

end Symbols

/-- The parse comes to nothing and leaves no trace. -/
def Declines (parse : Parse (Option α)) (input : Input) (state : ParseState) : Prop :=
  Ends parse input state fun value? after => value? = none ∧ after = state

theorem Declines.bind {parse : Parse (Option α)} {next : Option α → Parse β}
    {post : β → ParseState → Prop} (h : Declines parse input state)
    (hnext : Ends (next none) input state post) : Ends (parse >>= next) input state post := by
  refine Ends.bind h ?_
  rintro _ _ ⟨rfl, rfl⟩
  exact hnext

theorem eat_declines {kind : TokenKind} (h : input.sentence.kindAt state.position ≠ kind) :
    Declines (eat kind) input state :=
  .checkIf (fun hyes => absurd hyes h) fun _ => ⟨rfl, rfl⟩

theorem attempt_declines {parse : Parse (Option α)}
    (h : Ends parse input state fun value? _ => value? = none) :
    Declines (attempt parse) input state := by
  refine attempt_ends (h.imp ?_)
  rintro _ after rfl
  exact ⟨rfl, rfl⟩

theorem whenever_declines {question : Sentence → Nat → Bool} {parse : Parse α}
    (h : question input.sentence state.position = false) :
    Declines (whenever (ask question) parse) input state := by
  refine whenever_ends (fun hyes => ?_) fun _ => ⟨rfl, rfl⟩
  rw [h] at hyes
  cases hyes

theorem growWithin_declined {step : α → Parse (Option α)} {value : α}
    {post : α → ParseState → Prop} (h : Declines (step value) input state)
    (hpost : post value state) (n : Nat) : Ends (growWithin step n value) input state post := by
  cases n with
  | zero => exact .pure hpost
  | succ n =>
      unfold growWithin
      exact h.bind (.pure hpost)

theorem manyWithin_declined {item : Parse (Option α)} {post : List α → ParseState → Prop}
    (h : Declines item input state) (hpost : post [] state) (n : Nat) :
    Ends (manyWithin item n) input state post := by
  cases n with
  | zero => exact .pure hpost
  | succ n =>
      unfold manyWithin
      exact h.bind (.pure hpost)

theorem many_declined {item : Parse (Option α)} {post : List α → ParseState → Prop}
    (h : Declines item input state) (hpost : post [] state) : Ends (many item) input state post :=
  .left (manyWithin_declined h hpost _)

theorem many_single {item : Parse (Option α)} {post : List α → ParseState → Prop}
    (hkind : input.sentence.kindAt state.position ≠ .eof)
    (h : Ends item input state fun value? after =>
      (∃ value, value? = some value ∧ post [value] after) ∧ Declines item input after) :
    Ends (many item) input state post := by
  have hlt := Sentence.lt_size_of_kindAt hkind
  obtain ⟨n, hn⟩ : ∃ n, input.sentence.left state.position = n + 1 :=
    ⟨input.sentence.left state.position - 1, by unfold Sentence.left; omega⟩
  unfold many
  refine .left ?_
  rw [hn]
  unfold manyWithin
  refine h.bind ?_
  rintro _ after ⟨⟨value, rfl, hpost⟩, hagain⟩
  have hbehind : Ends (manyWithin item n) input after fun more last =>
      post (value :: more) last := manyWithin_declined hagain hpost n
  exact hbehind.bind fun more last hlast => .pure hlast

section Commas

variable {item : Parse α} {post : List α → ParseState → Prop}

theorem separatedWithin_last (m : Nat)
    (h : Ends item input state fun value after =>
      input.sentence.kindAt after.position ≠ .comma ∧ post [value] after) :
    Ends (separatedWithin item m) input state post := by
  cases m with
  | zero =>
      unfold separatedWithin
      exact h.bind fun value after hvalue => .pure hvalue.2
  | succ m =>
      unfold separatedWithin
      exact h.bind fun value after hvalue => (eat_declines hvalue.1).bind (.pure hvalue.2)

theorem separatedWithin_more {m : Nat}
    (h : Ends item input state fun value after =>
      input.sentence.kindAt after.position = .comma ∧
        Ends (separatedWithin item m) input { after with position := after.position + 1 }
          fun more last => post (value :: more) last) :
    Ends (separatedWithin item (m + 1)) input state post := by
  unfold separatedWithin
  exact h.bind fun value after hvalue =>
    .eatTaken hvalue.1 (by decide) (hvalue.2.bind fun more last hpost => .pure hpost)

end Commas

end TolerantSyntax.Parse
