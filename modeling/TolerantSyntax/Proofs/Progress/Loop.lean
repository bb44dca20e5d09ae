import TolerantSyntax.Proofs.Parse.Known
import TolerantSyntax.Proofs.Progress.Recursion
import TolerantSyntax.Proofs.Reads.Member

/-!
# Loops that go forward

A loop is a recursion as well: behind a round the rest of the loop is called.  A round that may be
followed by another one takes a symbol, at the latest the comma behind an item.  So a loop is left
because a round declines, and never because of its bound.
-/

namespace TolerantSyntax.Parse

variable {α β : Type} {input : Input} {state : ParseState}

namespace Recursion

def many (item : Parse (Option α)) : Recursion Unit (List α) where
  opens _ _ := True
  step nested _ := do
    match ← item with
    | none => return []
    | some value => return value :: (← nested ())
  within n _ := manyWithin item n

def grow (step : α → Parse (Option α)) : Recursion α α where
  opens _ _ := True
  step nested value := do
    match ← step value with
    | none => return value
    | some grown => nested grown
  within n value := growWithin step n value

def separated (item : Parse α) : Recursion Unit (List α) where
  opens _ _ := True
  step nested _ := do
    let value ← item
    match ← eat .comma with
    | none => return [value]
    | some _ => return value :: (← nested ())
  within n _ := separatedWithin item n

def listed (item : Parse α) (closing : TokenKind) : Recursion Unit (List α) where
  opens _ _ := True
  step nested _ := do
    if (← check closing) || (← atEnd) then return []
    else
      let value ← item
      match ← eat .comma with
      | none => return [value]
      | some _ => return value :: (← nested ())
  within n _ := listedWithin item closing n

def parameters : Recursion Unit (List Parameter) where
  opens _ kind := TokenSet.parameterStart.contains kind = true
  step nested _ := do
    let first ← parameter
    match ← eat .comma with
    | none => return [first]
    | some _ =>
        if ← checkAny .parameterStart then return first :: (← nested ())
        else
          noteHere .typeExpected
          return [first]
  within n _ := parametersWithin n

end Recursion

/-- An item that takes a symbol if it does not decline, and that declines at the end. -/
structure Round (item : Parse (Option α)) (input : Input) : Prop where
  onward : Onward item input
  takes : ∀ state, Ends item input state fun value? after =>
    value?.isSome = true → state.position < after.position
  ended : ∀ state, input.sentence.left state.position = 0 → Declines item input state

namespace Round

theorem ends {item : Parse (Option α)} (h : Round item input) :
    Ends item input state fun value? after => state.position ≤ after.position ∧
      (value?.isSome = true → state.position < after.position) :=
  ⟨h.onward state, h.takes state⟩

theorem many {item : Parse (Option α)} (h : Round item input) :
    (Recursion.many item).Rising input where
  within_succ _ := rfl
  onward_zero _ _ := Nat.le_refl _
  paired nested other _ state _ hnested := by
    refine .behind h.ends ?_
    rintro value? after ⟨hforward, htakes⟩
    refine ⟨hforward, ?_⟩
    cases value? with
    | none => exact .pure _
    | some value =>
        exact (hnested () after (htakes rfl) trivial).bind fun rest _ _ => .pure _
  ended nested _ state _ hleft := by
    have hstep : Ends ((Recursion.many item).step nested ()) input state
        fun values after => (values, after) = ([], state) := (h.ended state hleft).bind rfl
    exact hstep

theorem many_ends {item : Parse (Option α)} (h : Round item input)
    {post : List α → ParseState → Prop}
    (hstep : Ends ((Recursion.many item).step (Recursion.many item).read ()) input state post) :
    Ends (Parse.many item) input state post := by
  have hread := h.many.read_eq_step () state trivial
  unfold Ends at hstep
  rw [← hread] at hstep
  exact hstep

theorem many_declines {item : Parse (Option α)} (h : Round item input)
    (hnone : Declines item input state) :
    Ends (Parse.many item) input state fun values after => values = [] ∧ after = state :=
  h.many_ends (hnone.bind ⟨rfl, rfl⟩)

theorem many_moves {item : Parse (Option α)} (h : Round item input)
    (hsome : Ends item input state fun value? _ => value?.isSome = true) :
    Ends (Parse.many item) input state fun _ after => state.position < after.position := by
  have htaken : Ends item input state fun value? after =>
      value?.isSome = true ∧ state.position < after.position := ⟨hsome, h.takes state hsome⟩
  refine h.many_ends (htaken.bind ?_)
  rintro value? after ⟨hsome, hmoved⟩
  cases value? with
  | none => cases hsome
  | some value => exact Nat.lt_of_lt_of_le hmoved (h.many.read_forward () after trivial)

theorem grow {step : α → Parse (Option α)} (h : ∀ value, Round (step value) input) :
    (Recursion.grow step).Rising input where
  within_succ _ := rfl
  onward_zero _ _ := Nat.le_refl _
  paired nested other value state _ hnested := by
    refine .behind (h value).ends ?_
    rintro grown? after ⟨hforward, htakes⟩
    refine ⟨hforward, ?_⟩
    cases grown? with
    | none => exact .pure _
    | some grown => exact hnested grown after (htakes rfl) trivial
  ended nested value state _ hleft := by
    have hstep : Ends ((Recursion.grow step).step nested value) input state
        fun grown after => (grown, after) = (value, state) := ((h value).ended state hleft).bind rfl
    exact hstep

end Round

theorem eat_ended {kind : TokenKind} (hkind : kind ≠ .eof)
    (hleft : input.sentence.left state.position = 0) : Declines (eat kind) input state :=
  eat_declines (by rw [Sentence.kindAt_of_left hleft]; exact hkind.symm)

namespace Onward

variable {item : Parse α} (h : Onward item input)
include h

theorem separated : (Recursion.separated item).Rising input where
  within_succ _ := rfl
  onward_zero _ _ := h _
  paired nested other _ state _ hnested := by
    refine h.paired.bind fun value after₁ h₁ => ?_
    refine .eat (by decide) (fun comma after₂ h₂ => ?_) (.pure _)
    exact (hnested () after₂ (by omega) trivial).bind fun rest _ _ => .pure _
  ended nested _ state _ hleft := by
    have hbehind : input.sentence.left (item input state).2.position = 0 := by
      have hforward := h state
      unfold Sentence.left at hleft ⊢
      omega
    have hstep : Ends ((Recursion.separated item).step nested ()) input state
        fun values after => (values, after) = separatedWithin item 0 input state := by
      have hitem : Ends item input state fun value after =>
          value = (item input state).1 ∧ after = (item input state).2 := ⟨rfl, rfl⟩
      refine hitem.bind ?_
      rintro _ _ ⟨rfl, rfl⟩
      exact (eat_ended (by decide) hbehind).bind rfl
    exact hstep

theorem listed (closing : TokenKind) : (Recursion.listed item closing).Rising input where
  within_succ _ := rfl
  onward_zero _ _ := Nat.le_refl _
  paired nested other _ state _ hnested := by
    refine .after (.check _) fun closed after₁ h₁ => .after .atEnd fun ended after₂ h₂ => ?_
    refine .ite (fun _ => .pure _) fun _ => h.paired.bind fun value after₃ h₃ => ?_
    refine .eat (by decide) (fun comma after₄ h₄ => ?_) (.pure _)
    exact (hnested () after₄ (by omega) trivial).bind fun rest _ _ => .pure _
  ended nested _ state _ hleft := by
    have hend : Ends atEnd input state fun ended after => ended = true ∧ after = state :=
      ⟨by simp [atEnd, check, ask, Sentence.kindAt_of_left hleft], rfl⟩
    have hstep : Ends ((Recursion.listed item closing).step nested ()) input state
        fun values after => (values, after) = ([], state) := by
      refine Ends.ask fun closed _ => hend.bind ?_
      rintro _ _ ⟨rfl, rfl⟩
      refine .ite (fun _ => .pure rfl) fun hopen => ?_
      simp at hopen
    exact hstep

end Onward

theorem parameters_rising : Recursion.parameters.Rising input where
  within_succ _ := rfl
  onward_zero _ _ := Nat.le_refl _
  paired nested other _ state _ hnested := by
    refine .after .parameter fun first after₁ h₁ => ?_
    refine .eat (by decide) (fun comma after₂ h₂ => ?_) (.pure _)
    refine .ask fun starts hstarts => .ite (fun hyes => ?_) fun _ => ?_
    · exact (hnested () after₂ (by omega) (hstarts.trans hyes)).bind fun rest _ _ => .pure _
    · exact .shared ((Scripted.noteHere _).bind fun _ => .pure _)
  ended _ _ state hopens hleft := by
    rw [Sentence.kindAt_of_left hleft] at hopens
    exact absurd (TokenSet.parameterStart_eof.symm.trans hopens) (by decide)

end TolerantSyntax.Parse
