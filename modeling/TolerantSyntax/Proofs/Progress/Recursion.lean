import Mathlib.Logic.Relation
import Mathlib.Order.WellFounded
import TolerantSyntax.Proofs.Progress.Paired

/-!
# Recursion that goes forward

A recursion of the grammar reads parts inside parts.  It is bounded by the symbols that are left,
but it does not need the bound: a part is read inside another one only behind the place where
that starts.  So the equations of the recursion, without any bound, have one solution; no part is
read again at the place where it is being read; and every chain of parts inside parts ends.
-/

namespace TolerantSyntax.Parse

variable {κ α β : Type} {input : Input} {state : ParseState}

/-- A production enters what is read for `key` at `place` when that makes a difference: there are
two ways to read parts, alike but for this key at this place, with which it ends differently. -/
def Enters (production : (κ → Parse β) → Parse α) (input : Input) (state : ParseState) (key : κ)
    (place : Nat) : Prop :=
  ∃ nested other : κ → Parse β, (∀ key, Onward (nested key) input) ∧
    (∀ inner before, (inner, before.position) ≠ (key, place) →
      nested inner input before = other inner input before) ∧
    production nested input state ≠ production other input state

/-- What is entered is among what has to be alike for the production to end alike. -/
theorem Enters.of_paired {production : (κ → Parse β) → Parse α} {key : κ} {place floor : Nat}
    (henters : Enters production input state key place) (opens : κ → TokenKind → Prop)
    (hpaired : ∀ nested other : κ → Parse β,
      (∀ inner before, floor ≤ before.position →
        opens inner (input.sentence.kindAt before.position) →
          Paired (nested inner) (other inner) input before) →
      production nested input state = production other input state) :
    floor ≤ place ∧ opens key (input.sentence.kindAt place) := by
  obtain ⟨nested, other, honward, halike, hne⟩ := henters
  by_contra hnot
  refine hne (hpaired nested other fun inner before hfloor hopens => ?_)
  refine ⟨halike inner before ?_, honward inner before⟩
  rintro ⟨⟩
  exact hnot ⟨hfloor, hopens⟩

structure Recursion (κ β : Type) where
  opens : κ → TokenKind → Prop
  step : (κ → Parse β) → κ → Parse β
  within : Nat → κ → Parse β

namespace Recursion

variable (recursion : Recursion κ β)

def read (key : κ) : Parse β := do recursion.within (← left) key

/-- The two ways to read are the same wherever parts are read. -/
def Same (nested other : κ → Parse β) (input : Input) : Prop :=
  ∀ key state, recursion.opens key (input.sentence.kindAt state.position) →
    nested key input state = other key input state

/-- For the key a part is being read from `place` on, and inside it one for `inner`. -/
def Calls (input : Input) (inner outer : κ × Nat) : Prop :=
  ∃ state : ParseState, state.position = outer.2 ∧
    recursion.opens outer.1 (input.sentence.kindAt outer.2) ∧
      Enters (fun nested => recursion.step nested outer.1) input state inner.1 inner.2

structure Terminates (input : Input) : Prop where
  /-- The equations without a bound have one solution: what is read. -/
  determined : ∀ solution : κ → Parse β,
    recursion.Same solution (recursion.step solution) input ↔
      recursion.Same solution recursion.read input
  /-- Whatever is read inside a part starts behind it. -/
  rises : ∀ inner outer, Relation.TransGen (recursion.Calls input) inner outer →
    outer.2 < inner.2
  founded : WellFounded (recursion.Calls input)
  forward : ∀ key (state : ParseState),
    recursion.opens key (input.sentence.kindAt state.position) →
      state.position ≤ (recursion.read key input state).2.position

/-- What has to be known of the steps. -/
structure Rising (input : Input) : Prop where
  within_succ : ∀ n, recursion.within (n + 1) = recursion.step (recursion.within n)
  onward_zero : ∀ key, Onward (recursion.within 0 key) input
  paired : ∀ (nested other : κ → Parse β) (key : κ) (state : ParseState),
    recursion.opens key (input.sentence.kindAt state.position) →
    (∀ inner before, state.position + 1 ≤ before.position →
      recursion.opens inner (input.sentence.kindAt before.position) →
        Paired (nested inner) (other inner) input before) →
    Paired (recursion.step nested key) (recursion.step other key) input state
  ended : ∀ (nested : κ → Parse β) (key : κ) (state : ParseState),
    recursion.opens key (input.sentence.kindAt state.position) →
    input.sentence.left state.position = 0 →
    recursion.step nested key input state = recursion.within 0 key input state

namespace Rising

variable {recursion} (h : recursion.Rising input)
include h

theorem within_forward (n : Nat) (key : κ) (state : ParseState)
    (hopens : recursion.opens key (input.sentence.kindAt state.position)) :
    state.position ≤ (recursion.within n key input state).2.position := by
  induction n generalizing key state with
  | zero => exact h.onward_zero key state
  | succ n ih =>
      rw [h.within_succ]
      exact (h.paired _ _ key state hopens fun inner before _ hinner =>
        ⟨rfl, ih inner before hinner⟩).forward

/-- A bound that is not below the symbols left makes no difference. -/
theorem within_eq (n m : Nat) (key : κ) (state : ParseState)
    (hopens : recursion.opens key (input.sentence.kindAt state.position))
    (hn : input.sentence.left state.position ≤ n) (hm : input.sentence.left state.position ≤ m) :
    recursion.within n key input state = recursion.within m key input state := by
  -- A level takes one off both bounds, and the part inside leaves one symbol less.
  induction n generalizing m key state with
  | zero =>
      cases m with
      | zero => rfl
      | succ m =>
          rw [h.within_succ, h.ended _ key state hopens (by omega)]
  | succ n ih =>
      cases m with
      | zero => rw [h.within_succ, h.ended _ key state hopens (by omega)]
      | succ m =>
          rw [h.within_succ, h.within_succ]
          refine (h.paired _ _ key state hopens fun inner before hbefore hinner => ?_).same
          unfold Sentence.left at hn hm ih
          exact ⟨ih m inner before hinner (by omega) (by omega),
            h.within_forward n inner before hinner⟩

theorem read_eq_within (n : Nat) (key : κ) (state : ParseState)
    (hopens : recursion.opens key (input.sentence.kindAt state.position))
    (hn : input.sentence.left state.position ≤ n) :
    recursion.read key input state = recursion.within n key input state :=
  h.within_eq _ n key state hopens (Nat.le_refl _) hn

theorem read_forward (key : κ) (state : ParseState)
    (hopens : recursion.opens key (input.sentence.kindAt state.position)) :
    state.position ≤ (recursion.read key input state).2.position :=
  h.within_forward (input.sentence.left state.position) key state hopens

theorem read_eq_step : recursion.Same recursion.read (recursion.step recursion.read) input := by
  intro key state hopens
  have hstep := h.read_eq_within (input.sentence.left state.position + 1) key state hopens
    (Nat.le_succ _)
  rw [hstep, h.within_succ]
  refine (h.paired _ _ key state hopens fun inner before hbefore hinner => ?_).same
  refine ⟨(h.read_eq_within _ inner before hinner ?_).symm, h.within_forward _ inner before hinner⟩
  unfold Sentence.left
  omega

/-- Every solution is what is read. -/
theorem eq_read {solution : κ → Parse β}
    (hsolution : recursion.Same solution (recursion.step solution) input) :
    recursion.Same solution recursion.read input := by
  have hbounded : ∀ n key state, recursion.opens key (input.sentence.kindAt state.position) →
      input.sentence.left state.position ≤ n →
        recursion.read key input state = solution key input state := by
    intro n
    induction n with
    | zero =>
        intro key state hopens hleft
        rw [h.read_eq_step key state hopens, hsolution key state hopens,
          h.ended _ key state hopens (by omega), h.ended _ key state hopens (by omega)]
    | succ n ih =>
        intro key state hopens hleft
        rw [h.read_eq_step key state hopens, hsolution key state hopens]
        refine (h.paired _ _ key state hopens fun inner before hbefore hinner => ?_).same
        refine ⟨ih inner before hinner ?_, h.read_forward inner before hinner⟩
        unfold Sentence.left at hleft ⊢
        omega
  exact fun key state hopens => (hbounded _ key state hopens (Nat.le_refl _)).symm

theorem same_step {solution : κ → Parse β} (hread : recursion.Same solution recursion.read input) :
    recursion.Same solution (recursion.step solution) input := by
  intro key state hopens
  rw [hread key state hopens, h.read_eq_step key state hopens]
  refine (h.paired _ _ key state hopens fun inner before _ hinner => ?_).same
  exact ⟨(hread inner before hinner).symm, h.read_forward inner before hinner⟩

theorem calls {inner outer : κ × Nat} (hcalls : recursion.Calls input inner outer) :
    outer.2 < inner.2 ∧ outer.2 < input.sentence.size := by
  obtain ⟨state, hplace, hopens, henters⟩ := hcalls
  rw [← hplace] at hopens ⊢
  constructor
  · exact (henters.of_paired _ fun nested other hnested =>
      (h.paired nested other outer.1 state hopens hnested).same).1
  · by_contra hsize
    have hleft : input.sentence.left state.position = 0 := by
      unfold Sentence.left
      omega
    obtain ⟨nested, other, -, -, hne⟩ := henters
    have hzero := fun nested => h.ended nested outer.1 state hopens hleft
    exact hne ((hzero nested).trans (hzero other).symm)

theorem terminates : recursion.Terminates input where
  determined _ := ⟨h.eq_read, h.same_step⟩
  rises inner outer hchain := by
    induction hchain with
    | single hcalls => exact (h.calls hcalls).1
    | tail _ hcalls ih => exact Nat.lt_trans (h.calls hcalls).1 ih
  forward := h.read_forward
  founded := by
    refine Subrelation.wf (fun {inner outer} hcalls => ?_)
      (measure fun activation : κ × Nat => input.sentence.size - activation.2).wf
    have hplaces := h.calls hcalls
    have hless : input.sentence.size - inner.2 < input.sentence.size - outer.2 := by omega
    exact hless

end Rising
end Recursion
end TolerantSyntax.Parse
