import TolerantSyntax.Grammar.Parse
import TolerantSyntax.Proofs.Parse.Covers

/-!
# The table of tuple ends

A scan at an index asks about nested types and tuple types behind that index only, and
goes forward.  So two scans that agree there agree at the index too: the fuel does not
matter once it bounds the symbols left, and an entry of the table does not depend on the
entries in front of it.  With the table `typeEnd?` is what it is without.
-/

namespace TolerantSyntax
namespace Sentence

section Forward

variable (sentence : Sentence)

def behind (kind : TokenKind) (index : Nat) : Nat :=
  if sentence.kindAt index = kind then index + 1 else index

theorem le_commasEndWithin (n index : Nat) : index ≤ sentence.commasEndWithin n index := by
  induction n generalizing index with
  | zero => exact Nat.le_refl _
  | succ n ih =>
      unfold commasEndWithin
      have hnext := ih (index + 1)
      split <;> omega

theorem lt_rankEnd (index : Nat) : index < sentence.rankEnd index := by
  have hcommas := sentence.le_commasEndWithin (sentence.left index) (index + 1)
  unfold rankEnd
  simp only
  split <;> omega

theorem le_ranksEndWithin (n index : Nat) : index ≤ sentence.ranksEndWithin n index := by
  induction n generalizing index with
  | zero => exact Nat.le_refl _
  | succ n ih =>
      unfold ranksEndWithin
      have hrank := sentence.lt_rankEnd index
      have hnext := ih (sentence.rankEnd index)
      split <;> omega

theorem le_suffixesEndWithin (n : Nat) (nullable : Bool) (index : Nat) :
    index ≤ sentence.suffixesEndWithin n nullable index := by
  induction n generalizing nullable index with
  | zero => exact Nat.le_refl _
  | succ n ih =>
      have hnext : ∀ nullable, index ≤ sentence.suffixesEndWithin n nullable (index + 1) := by
        intro nullable
        exact Nat.le_trans (Nat.le_succ index) (ih nullable (index + 1))
      have hranks : index ≤
          sentence.suffixesEndWithin n false (sentence.ranksEndWithin n index) :=
        Nat.le_trans (sentence.le_ranksEndWithin n index) (ih false _)
      unfold suffixesEndWithin
      split
      · split
        · exact Nat.le_refl _
        · exact hnext true
      · exact hnext false
      · split
        · exact hranks
        · exact Nat.le_refl _
      · exact Nat.le_refl _

end Forward

section Suffixes

variable {sentence : Sentence} {n m index : Nat}

theorem commasEndWithin_of_ne (h : sentence.kindAt index ≠ .comma) (n : Nat) :
    sentence.commasEndWithin n index = index := by
  cases n with
  | zero => rfl
  | succ n => rw [commasEndWithin, if_neg h]

theorem commasEndWithin_fuel (hn : sentence.left index ≤ n) (hm : sentence.left index ≤ m) :
    sentence.commasEndWithin n index = sentence.commasEndWithin m index := by
  induction n generalizing m index with
  | zero =>
      have hkind := kindAt_of_left (Nat.le_zero.mp hn)
      rw [commasEndWithin_of_ne (by simp [hkind]), commasEndWithin_of_ne (by simp [hkind])]
  | succ n ih =>
      cases m with
      | zero =>
          have hkind := kindAt_of_left (Nat.le_zero.mp hm)
          rw [commasEndWithin_of_ne (by simp [hkind]), commasEndWithin_of_ne (by simp [hkind])]
      | succ m =>
          have hnext : sentence.left (index + 1) = sentence.left index - 1 := by
            unfold left
            omega
          rw [commasEndWithin, commasEndWithin, ih (m := m) (by omega) (by omega)]

theorem rankEnd_eq (index : Nat) :
    sentence.rankEnd index = sentence.behind .rBracket
      (sentence.commasEndWithin (sentence.left (index + 1)) (index + 1)) := by
  have hleft : sentence.left (index + 1) ≤ sentence.left index := by
    unfold left
    omega
  rw [commasEndWithin_fuel (Nat.le_refl _) hleft]
  rfl

theorem rankAt_of_left (h : sentence.left index ≤ 1) : sentence.rankAt index = false := by
  have hnext : sentence.kindAt (index + 1) = .eof := by
    apply kindAt_eq_eof
    unfold left at h
    omega
  simp [rankAt, hnext]

theorem rankEnd_of_rankAt (h : sentence.rankAt index = true) :
    index + 2 ≤ sentence.rankEnd index := by
  have hleft : 1 < sentence.left index := by
    apply Nat.lt_of_not_le
    intro hle
    rw [rankAt_of_left hle] at h
    exact absurd h nofun
  obtain ⟨k, hk⟩ := Nat.exists_eq_succ_of_ne_zero (Nat.ne_of_gt (Nat.lt_of_succ_lt hleft))
  unfold rankEnd
  simp only [hk, commasEndWithin]
  have hcommas := sentence.le_commasEndWithin k (index + 1 + 1)
  have hkinds : sentence.kindAt (index + 1) = .rBracket ∨
      sentence.kindAt (index + 1) = .comma := by
    simp only [rankAt, Bool.and_eq_true, Bool.or_eq_true, beq_iff_eq] at h
    exact h.2
  rcases hkinds with hclosing | hcomma
  · simp [hclosing]
  · rw [if_pos hcomma]
    split <;> omega

theorem ranksEndWithin_of_not (h : sentence.rankAt index = false) (n : Nat) :
    sentence.ranksEndWithin n index = index := by
  cases n with
  | zero => rfl
  | succ n => rw [ranksEndWithin, if_neg (by simp [h])]

theorem ranksEndWithin_fuel (hn : sentence.left index ≤ n + 1)
    (hm : sentence.left index ≤ m + 1) :
    sentence.ranksEndWithin n index = sentence.ranksEndWithin m index := by
  induction n generalizing m index with
  | zero =>
      have hrank := rankAt_of_left hn
      rw [ranksEndWithin_of_not hrank, ranksEndWithin_of_not hrank]
  | succ n ih =>
      cases m with
      | zero =>
          have hrank := rankAt_of_left hm
          rw [ranksEndWithin_of_not hrank, ranksEndWithin_of_not hrank]
      | succ m =>
          cases hrank : sentence.rankAt index with
          | false => rw [ranksEndWithin_of_not hrank, ranksEndWithin_of_not hrank]
          | true =>
              have hend := rankEnd_of_rankAt hrank
              have hnext : sentence.left (sentence.rankEnd index) ≤ sentence.left index - 2 := by
                unfold left
                omega
              rw [ranksEndWithin, ranksEndWithin, if_pos hrank, if_pos hrank]
              exact ih (by omega) (by omega)

theorem lt_ranksEndWithin (h : sentence.rankAt index = true) (hn : sentence.left index ≤ n) :
    index < sentence.ranksEndWithin n index := by
  cases n with
  | zero =>
      rw [rankAt_of_left (Nat.le_succ_of_le hn)] at h
      exact absurd h nofun
  | succ n =>
      rw [ranksEndWithin, if_pos h]
      exact Nat.lt_of_lt_of_le (sentence.lt_rankEnd index) (sentence.le_ranksEndWithin n _)

theorem suffixesEndWithin_of_not (hquestion : sentence.kindAt index ≠ .question)
    (hstar : sentence.kindAt index ≠ .star) (hrank : sentence.rankAt index = false)
    (nullable : Bool) (n : Nat) : sentence.suffixesEndWithin n nullable index = index := by
  cases n with
  | zero => rfl
  | succ n =>
      unfold suffixesEndWithin
      split
      · exact absurd ‹_› hquestion
      · exact absurd ‹_› hstar
      · rw [if_neg (by simp [hrank])]
      · rfl

end Suffixes

/-! ## Scans that agree -/

/-- From a bound on two scans are the same, and go forward. -/
def AgreeFrom (bound : Nat) (scan other : Nat → Option Nat) : Prop :=
  ∀ index, bound ≤ index → scan index = other index ∧
    ∀ stop, scan index = some stop → index < stop

section Agree

variable {bound : Nat} {scan other : Nat → Option Nat}

theorem AgreeFrom.mono {later : Nat} (h : AgreeFrom bound scan other) (hle : bound ≤ later) :
    AgreeFrom later scan other := fun index hindex => h index (Nat.le_trans hle hindex)

variable (sentence : Sentence) {index : Nat}

def behindReadonly (index : Nat) : Nat :=
  if sentence.kindAt index = .readonlyKw ∧ sentence.kindAt (index + 1) = .refKw then index + 1
  else index

def elementStart (index : Nat) : Nat :=
  sentence.behind .refKw (sentence.behindReadonly index)

def nameEnd (named : Bool) (index : Nat) : Nat :=
  if named ∧ sentence.kindAt index = .identifier then index + 1 else index

theorem elementEnd_eq (scan : Nat → Option Nat) (named : Bool) (index : Nat) :
    sentence.elementEnd scan named index =
      sentence.nameEnd named
        ((scan (sentence.elementStart index)).getD (sentence.elementStart index)) := rfl

theorem le_elementStart (index : Nat) : index ≤ sentence.elementStart index := by
  unfold elementStart behind behindReadonly
  repeat' split
  all_goals omega

theorem le_nameEnd (named : Bool) (index : Nat) : index ≤ sentence.nameEnd named index := by
  unfold nameEnd
  split <;> omega

theorem elementEnd_agree (h : AgreeFrom bound scan other) (named : Bool)
    (hindex : bound ≤ index) :
    sentence.elementEnd scan named index = sentence.elementEnd other named index ∧
      index ≤ sentence.elementEnd scan named index := by
  have hstart := sentence.le_elementStart index
  obtain ⟨hsame, hforward⟩ := h (sentence.elementStart index) (Nat.le_trans hindex hstart)
  rw [elementEnd_eq, elementEnd_eq, ← hsame]
  refine ⟨rfl, Nat.le_trans ?_ (sentence.le_nameEnd named _)⟩
  cases hscan : scan (sentence.elementStart index) with
  | none => exact hstart
  | some stop => exact Nat.le_trans hstart (Nat.le_of_lt (hforward stop hscan))

theorem elementsEndWithin_agree (h : AgreeFrom bound scan other) (named : Bool) (n : Nat)
    (hindex : bound ≤ index) :
    sentence.elementsEndWithin scan named n index =
        sentence.elementsEndWithin other named n index ∧
      index ≤ sentence.elementsEndWithin scan named n index := by
  induction n generalizing index with
  | zero => exact sentence.elementEnd_agree h named hindex
  | succ n ih =>
      obtain ⟨hsame, hforward⟩ := sentence.elementEnd_agree h named hindex
      unfold elementsEndWithin
      simp only
      rw [← hsame]
      split
      · have hnext : bound ≤ sentence.elementEnd scan named index + 1 := by omega
        obtain ⟨hrest, hle⟩ := ih hnext
        exact ⟨hrest, by omega⟩
      · exact ⟨rfl, hforward⟩

theorem listEnd_agree (h : AgreeFrom bound scan other) (named : Bool) (closing : TokenKind)
    (hindex : bound ≤ index) :
    sentence.listEnd scan named closing index = sentence.listEnd other named closing index ∧
      index ≤ sentence.listEnd scan named closing index := by
  obtain ⟨hsame, hforward⟩ :=
    sentence.elementsEndWithin_agree h named (sentence.left index) hindex
  unfold listEnd
  simp only
  rw [← hsame]
  refine ⟨rfl, ?_⟩
  split <;> omega

theorem simpleNameEnd_agree (h : AgreeFrom bound scan other) (hindex : bound ≤ index + 1) :
    sentence.simpleNameEnd scan index = sentence.simpleNameEnd other index ∧
      index < sentence.simpleNameEnd scan index := by
  unfold simpleNameEnd
  split
  · have hnext : bound ≤ index + 2 := by omega
    obtain ⟨hsame, hforward⟩ := sentence.listEnd_agree h false .gt hnext
    exact ⟨hsame, by omega⟩
  · exact ⟨rfl, by omega⟩

theorem segmentsEndWithin_agree (h : AgreeFrom bound scan other) (n : Nat)
    (hindex : bound ≤ index) :
    sentence.segmentsEndWithin scan n index = sentence.segmentsEndWithin other n index ∧
      index ≤ sentence.segmentsEndWithin scan n index := by
  induction n generalizing index with
  | zero => exact ⟨rfl, Nat.le_refl _⟩
  | succ n ih =>
      have hname : bound ≤ index + 1 + 1 := by omega
      obtain ⟨hsame, hforward⟩ := sentence.simpleNameEnd_agree h hname
      unfold segmentsEndWithin
      split
      · have hnext : bound ≤ sentence.simpleNameEnd scan (index + 1) := by omega
        obtain ⟨hrest, hle⟩ := ih hnext
        rw [← hsame]
        exact ⟨hrest, by omega⟩
      · exact ⟨rfl, Nat.le_refl _⟩

theorem qualifiedNameEnd_agree (h : AgreeFrom (index + 1) scan other) :
    sentence.qualifiedNameEnd scan index = sentence.qualifiedNameEnd other index ∧
      index < sentence.qualifiedNameEnd scan index := by
  obtain ⟨hsame, hforward⟩ := sentence.simpleNameEnd_agree h (Nat.le_refl _)
  unfold qualifiedNameEnd
  simp only
  rw [← hsame]
  obtain ⟨hrest, hle⟩ := sentence.segmentsEndWithin_agree h
    (sentence.left (sentence.simpleNameEnd scan index)) (Nat.succ_le_of_lt hforward)
  exact ⟨hrest, by omega⟩

theorem tupleEnd_agree (h : AgreeFrom (index + 1) scan other) :
    sentence.tupleEnd scan index = sentence.tupleEnd other index ∧
      index < sentence.tupleEnd scan index := by
  obtain ⟨hsame, hforward⟩ := sentence.listEnd_agree h true .rParen (Nat.le_refl _)
  exact ⟨hsame, hforward⟩

theorem typeEndStep_agree {tuples others : Nat → Nat} (h : AgreeFrom (index + 1) scan other)
    (htuples : sentence.kindAt index = .lParen →
      tuples index = others index ∧ index < tuples index) :
    sentence.typeEndStep scan tuples index = sentence.typeEndStep other others index ∧
      ∀ stop, sentence.typeEndStep scan tuples index = some stop → index < stop := by
  have hsuffixes : ∀ {behind stop : Nat}, index < behind →
      some (sentence.suffixesEnd behind) = some stop → index < stop := by
    intro behind stop hbehind hstop
    cases hstop
    exact Nat.lt_of_lt_of_le hbehind (sentence.le_suffixesEndWithin _ _ _)
  unfold typeEndStep
  split
  · obtain ⟨hsame, hforward⟩ := sentence.qualifiedNameEnd_agree h
    rw [← hsame]
    exact ⟨rfl, fun stop => hsuffixes hforward⟩
  · rename_i hkind
    obtain ⟨hsame, hforward⟩ := htuples hkind
    rw [← hsame]
    exact ⟨rfl, fun stop => hsuffixes hforward⟩
  · split
    · exact ⟨rfl, fun stop => hsuffixes (Nat.lt_succ_self index)⟩
    · exact ⟨rfl, nofun⟩

end Agree

section Fuel

variable {sentence : Sentence} {bound : Nat} {tuples others : Nat → Nat}

/-- From a bound on two tables have the same ends of tuple types, each behind its `(`. -/
def SameFrom (sentence : Sentence) (bound : Nat) (tuples others : Nat → Nat) : Prop :=
  ∀ index, bound ≤ index → sentence.kindAt index = .lParen →
    tuples index = others index ∧ index < tuples index

theorem typeEndStep_of_left {scan : Nat → Option Nat} {index : Nat}
    (h : sentence.left index = 0) : sentence.typeEndStep scan tuples index = none := by
  unfold typeEndStep
  rw [kindAt_of_left h]
  rfl

theorem typeEndWithin?_of_left {index : Nat} (h : sentence.left index = 0) (n : Nat) :
    sentence.typeEndWithin? tuples n index = none := by
  cases n with
  | zero => rfl
  | succ n => exact typeEndStep_of_left h

theorem typeEndStep_of_ne {scan : Nat → Option Nat} {index : Nat}
    (hname : sentence.kindAt index ≠ .identifier) (hopening : sentence.kindAt index ≠ .lParen) :
    sentence.typeEndStep scan tuples index =
      if (sentence.kindAt index).isPredefinedType then some (sentence.suffixesEnd (index + 1))
      else none := by
  unfold typeEndStep
  split
  · exact absurd ‹_› hname
  · exact absurd ‹_› hopening
  · rfl

theorem typeEndWithin?_agree (h : sentence.SameFrom bound tuples others) {n m index : Nat}
    (hindex : bound ≤ index) (hn : sentence.left index ≤ n) (hm : sentence.left index ≤ m) :
    sentence.typeEndWithin? tuples n index = sentence.typeEndWithin? others m index ∧
      ∀ stop, sentence.typeEndWithin? tuples n index = some stop → index < stop := by
  induction n generalizing m index with
  | zero =>
      rw [typeEndWithin?_of_left (Nat.le_zero.mp hn), typeEndWithin?_of_left (Nat.le_zero.mp hn)]
      exact ⟨rfl, nofun⟩
  | succ n ih =>
      cases m with
      | zero =>
          rw [typeEndWithin?_of_left (Nat.le_zero.mp hm),
            typeEndWithin?_of_left (Nat.le_zero.mp hm)]
          exact ⟨rfl, nofun⟩
      | succ m =>
          have hnested : AgreeFrom (index + 1) (sentence.typeEndWithin? tuples n)
              (sentence.typeEndWithin? others m) := by
            intro behind hbehind
            unfold left at hn hm
            apply ih (Nat.le_trans hindex (Nat.le_of_lt hbehind))
            · unfold left
              omega
            · unfold left
              omega
          exact sentence.typeEndStep_agree hnested (h index hindex)

theorem typeEnd?_agree (h : sentence.SameFrom bound tuples others) :
    AgreeFrom bound (sentence.typeEnd? tuples) (sentence.typeEnd? others) := by
  intro index hindex
  exact typeEndWithin?_agree h hindex (Nat.le_refl _) (Nat.le_refl _)

theorem typeEnd?_eq (h : sentence.SameFrom 0 tuples tuples) (index : Nat) :
    sentence.typeEnd? tuples index =
      sentence.typeEndStep (sentence.typeEnd? tuples) tuples index := by
  cases hleft : sentence.left index with
  | zero =>
      rw [typeEndStep_of_left hleft]
      exact typeEndWithin?_of_left hleft _
  | succ n =>
      have hnested : AgreeFrom (index + 1) (sentence.typeEndWithin? tuples n)
          (sentence.typeEnd? tuples) := by
        intro behind hbehind
        apply typeEndWithin?_agree h (Nat.zero_le _)
        · unfold left at hleft ⊢
          omega
        · exact Nat.le_refl _
      unfold typeEnd?
      rw [hleft]
      exact (sentence.typeEndStep_agree hnested (h index (Nat.zero_le _))).1

end Fuel

/-! ## The table -/

section Table

variable {sentence : Sentence}

/-- From a bound on the entries at `(` are where the scan with the table finds the ends. -/
def FilledFrom (sentence : Sentence) (bound : Nat) (tuples : Nat → Nat) : Prop :=
  ∀ index, bound ≤ index → sentence.kindAt index = .lParen →
    tuples index = sentence.tupleEnd (sentence.typeEnd? tuples) index ∧ index < tuples index

theorem FilledFrom.same {bound : Nat} {tuples : Nat → Nat}
    (h : sentence.FilledFrom bound tuples) : sentence.SameFrom bound tuples tuples :=
  fun index hindex hkind => ⟨rfl, (h index hindex hkind).2⟩

theorem FilledFrom.cons {bound : Nat} {tuples others : Nat → Nat}
    (h : sentence.FilledFrom (bound + 1) tuples)
    (hbound : sentence.kindAt bound = .lParen →
      others bound = sentence.tupleEnd (sentence.typeEnd? tuples) bound)
    (hothers : ∀ index, bound < index → others index = tuples index) :
    sentence.FilledFrom bound others := by
  have hsame : sentence.SameFrom (bound + 1) tuples others := by
    intro index hindex hkind
    exact ⟨(hothers index hindex).symm, (h index hindex hkind).2⟩
  have hagree := typeEnd?_agree hsame
  intro index hindex hkind
  rcases Nat.eq_or_lt_of_le hindex with rfl | hlt
  · obtain ⟨htuple, hforward⟩ := sentence.tupleEnd_agree hagree
    rw [hbound hkind, htuple]
    exact ⟨rfl, htuple ▸ hforward⟩
  · obtain ⟨hentry, hforward⟩ := h index hlt hkind
    obtain ⟨htuple, -⟩ := sentence.tupleEnd_agree
      (hagree.mono (Nat.le_trans hlt (Nat.le_succ index)))
    rw [hothers index hlt, hentry, htuple]
    exact ⟨rfl, by omega⟩

theorem fillTupleEnds_filled (bound : Nat) (ends : Array Nat)
    (hsize : ends.size = sentence.size)
    (h : sentence.FilledFrom bound fun opening => ends.getD opening 0) :
    sentence.FilledFrom 0 fun opening => (sentence.fillTupleEnds bound ends).getD opening 0 := by
  induction bound generalizing ends with
  | zero => exact h
  | succ bound ih =>
      unfold fillTupleEnds
      split
      · rename_i hkind
        have hlt : bound < ends.size := by
          rw [hsize]
          exact lt_size_of_kindAt (by simp [hkind])
        apply ih
        · rw [Array.size_setIfInBounds, hsize]
        · apply h.cons
          · intro _
            simp [Array.getD_eq_getD_getElem?, hlt]
          · intro index hindex
            have hne : bound ≠ index := by omega
            simp [Array.getD_eq_getD_getElem?, hne]
      · rename_i hkind
        apply ih ends hsize
        apply h.cons
        · intro habsurd
          exact absurd habsurd hkind
        · intro index _
          rfl

theorem tupleEnds_filled (sentence : Sentence) :
    sentence.FilledFrom 0 (Input.ofSentence sentence).tupleEnd := by
  apply fillTupleEnds_filled
  · exact Array.size_replicate
  · intro index hindex hkind
    rw [kindAt_eq_eof hindex] at hkind
    exact absurd hkind nofun

theorem plainTypeEndWithin?_agree {n index : Nat} (hn : sentence.left index ≤ n) :
    sentence.typeEnd? (Input.ofSentence sentence).tupleEnd index =
        sentence.plainTypeEndWithin? n index ∧
      ∀ stop, sentence.typeEnd? (Input.ofSentence sentence).tupleEnd index = some stop →
        index < stop := by
  have hfilled := tupleEnds_filled sentence
  induction n generalizing index with
  | zero =>
      rw [typeEnd?_eq hfilled.same, typeEndStep_of_left (Nat.le_zero.mp hn)]
      exact ⟨rfl, nofun⟩
  | succ n ih =>
      have hnested : AgreeFrom (index + 1)
          (sentence.typeEnd? (Input.ofSentence sentence).tupleEnd)
          (sentence.plainTypeEndWithin? n) := by
        intro behind hbehind
        apply ih
        unfold left at hn ⊢
        omega
      rw [typeEnd?_eq hfilled.same]
      apply sentence.typeEndStep_agree hnested
      intro hkind
      obtain ⟨hentry, hforward⟩ := hfilled index (Nat.zero_le _) hkind
      exact ⟨hentry.trans (sentence.tupleEnd_agree hnested).1, hforward⟩

/-- The table saves time and changes nothing. -/
theorem plainTypeEnd?_eq (sentence : Sentence) (index : Nat) :
    sentence.plainTypeEnd? index =
      sentence.typeEnd? (Input.ofSentence sentence).tupleEnd index :=
  (plainTypeEndWithin?_agree (Nat.le_refl _)).1.symm

end Table
end Sentence
end TolerantSyntax
