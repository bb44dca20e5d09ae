import Mathlib.Data.List.Infix
import TolerantSyntax.Proofs.Parse.Covers
import TolerantSyntax.Proofs.Recovery.Entry

/-!
# Braces that are skipped

Tokens close their own braces when every `}` among them closes a `{` among them.  What is
skipped on the way to the next member or accessor does, since skipping counts the braces.
Skipping to a symbol of a set does when the set has the `}` or none comes before its end.
-/

namespace TolerantSyntax

/-- Read from left to right, a `}` closes a `{` read before it or one of `depth` braces
around the list. -/
def TokenKind.ClosesWithin (depth : Nat) (kinds : List TokenKind) : Prop :=
  ∀ front, front <+: kinds → front.count .rBrace ≤ depth + front.count .lBrace

instance (depth : Nat) (kinds : List TokenKind) :
    Decidable (TokenKind.ClosesWithin depth kinds) :=
  decidable_of_iff (∀ front ∈ kinds.inits, front.count .rBrace ≤ depth + front.count .lBrace) <|
    forall_congr' fun front => by rw [List.mem_inits]

namespace TokenKind.ClosesWithin

variable {depth : Nat} {kinds left right : List TokenKind} {kind : TokenKind}

theorem nil : ClosesWithin depth [] := by
  intro front hfront
  rw [List.prefix_nil.mp hfront]
  exact Nat.zero_le _

theorem append (hleft : ClosesWithin 0 left) (hright : ClosesWithin depth right) :
    ClosesWithin depth (left ++ right) := by
  intro front hfront
  rcases List.prefix_or_prefix_of_prefix hfront (List.prefix_append left right) with h | h
  · have := hleft front h
    omega
  · obtain ⟨behind, rfl⟩ := h
    have hall := hleft left (List.prefix_refl left)
    have hbehind := hright behind ((List.prefix_append_right_inj left).mp hfront)
    simp only [List.count_append]
    omega

theorem cons (hkind : kind ≠ .rBrace) (h : ClosesWithin depth kinds) :
    ClosesWithin depth (kind :: kinds) := by
  intro front hfront
  rcases List.prefix_cons_iff.mp hfront with rfl | ⟨behind, rfl, hbehind⟩
  · exact Nat.zero_le _
  · have := h behind hbehind
    have hle := List.count_le_count_cons (a := TokenKind.lBrace) (b := kind) (l := behind)
    rw [List.count_cons_of_ne hkind]
    omega

theorem opened (h : ClosesWithin (depth + 1) kinds) :
    ClosesWithin depth (.lBrace :: kinds) := by
  intro front hfront
  rcases List.prefix_cons_iff.mp hfront with rfl | ⟨behind, rfl, hbehind⟩
  · exact Nat.zero_le _
  · have := h behind hbehind
    rw [List.count_cons_self, List.count_cons_of_ne (by decide)]
    omega

theorem closed (h : ClosesWithin depth kinds) :
    ClosesWithin (depth + 1) (.rBrace :: kinds) := by
  intro front hfront
  rcases List.prefix_cons_iff.mp hfront with rfl | ⟨behind, rfl, hbehind⟩
  · exact Nat.zero_le _
  · have := h behind hbehind
    rw [List.count_cons_self, List.count_cons_of_ne (by decide)]
    omega

end TokenKind.ClosesWithin

namespace Sentence

open TokenKind (ClosesWithin)

variable {sentence : Sentence} {start middle stop : Nat}

def kinds (sentence : Sentence) (start stop : Nat) : List TokenKind :=
  (List.range' start (stop - start)).map sentence.kindAt

theorem kinds_self (start : Nat) : sentence.kinds start start = [] := by
  simp [kinds]

theorem kinds_cons (h : start < stop) :
    sentence.kinds start stop = sentence.kindAt start :: sentence.kinds (start + 1) stop := by
  obtain ⟨length, rfl⟩ := Nat.exists_eq_add_of_lt h
  have hlength : start + length + 1 - start = length + 1 := by omega
  have hrest : start + length + 1 - (start + 1) = length := by omega
  rw [kinds, kinds, hlength, hrest, List.range'_succ, List.map_cons]

theorem kinds_append (hleft : start ≤ middle) (hright : middle ≤ stop) :
    sentence.kinds start middle ++ sentence.kinds middle stop = sentence.kinds start stop := by
  obtain ⟨left, rfl⟩ := Nat.exists_eq_add_of_le hleft
  obtain ⟨right, rfl⟩ := Nat.exists_eq_add_of_le hright
  have hlength : start + left + right - start = left + right := by omega
  simp only [kinds, Nat.add_sub_cancel_left, hlength, ← List.map_append, List.range'_append_1]

/-- Every `}` from `start` up to `stop` closes a `{` there. -/
def ClosesOwn (sentence : Sentence) (start stop : Nat) : Prop :=
  ClosesWithin 0 (sentence.kinds start stop)

namespace ClosesOwn

theorem refl (start : Nat) : sentence.ClosesOwn start start := by
  rw [ClosesOwn, kinds_self]
  exact .nil

theorem trans (hleft : sentence.ClosesOwn start middle) (hright : sentence.ClosesOwn middle stop)
    (hstart : start ≤ middle) (hstop : middle ≤ stop) : sentence.ClosesOwn start stop := by
  rw [ClosesOwn, ← kinds_append hstart hstop]
  exact hleft.append hright

theorem of_ne (h : ∀ index, start ≤ index → index < stop → sentence.kindAt index ≠ .rBrace) :
    sentence.ClosesOwn start stop := by
  intro front hfront
  have hzero : front.count .rBrace = 0 := by
    refine List.count_eq_zero.mpr fun hmem => ?_
    obtain ⟨index, hindex, hkind⟩ := List.mem_map.mp (hfront.subset hmem)
    rw [List.mem_range'_1] at hindex
    exact h index hindex.1 (by omega) hkind
  omega

theorem single (hkind : sentence.kindAt start ≠ .rBrace) :
    sentence.ClosesOwn start (start + 1) := by
  refine of_ne fun index hstart hstop => ?_
  obtain rfl : index = start := by omega
  exact hkind

theorem braces (hopening : sentence.kindAt start = .lBrace)
    (hinner : sentence.ClosesOwn (start + 1) stop) (hle : start + 1 ≤ stop)
    (hclosing : sentence.kindAt stop = .rBrace) : sentence.ClosesOwn start (stop + 1) := by
  have hkinds : sentence.kinds start (stop + 1) =
      .lBrace :: (sentence.kinds (start + 1) stop ++ [.rBrace]) := by
    rw [kinds_cons (by omega), hopening, ← kinds_append hle (Nat.le_succ stop),
      kinds_cons (Nat.lt_succ_self stop), hclosing, kinds_self]
  rw [ClosesOwn, hkinds]
  exact .opened (.append hinner (.closed .nil))

end ClosesOwn

theorem not_mem_of_lt_seekWithin {set : TokenKind → Bool} {n index skipped : Nat}
    (hle : index ≤ skipped) (hlt : skipped < sentence.seekWithin set n index) :
    set (sentence.kindAt skipped) = false := by
  induction n generalizing index with
  | zero =>
      rw [seekWithin] at hlt
      omega
  | succ n ih =>
      rw [seekWithin] at hlt
      split at hlt
      · omega
      · rename_i hkind
        by_cases hat : skipped = index
        · rw [hat]
          simp only [Bool.or_eq_true, not_or, Bool.not_eq_true] at hkind
          exact hkind.2
        · exact ih (by omega) hlt

theorem seekWithin_or (set other : TokenKind → Bool) {n index : Nat}
    (h : other (sentence.kindAt
      (sentence.seekWithin (fun kind => other kind || set kind) n index)) = false) :
    sentence.seekWithin (fun kind => other kind || set kind) n index =
      sentence.seekWithin set n index := by
  induction n generalizing index with
  | zero => rfl
  | succ n ih =>
      cases hset : set (sentence.kindAt index) with
      | true => simp [seekWithin, hset]
      | false =>
          cases hother : other (sentence.kindAt index) with
          | true => simp [seekWithin, hother] at h
          | false =>
              simp only [seekWithin, hset, hother, Bool.or_false] at h ⊢
              split
              · rfl
              · rename_i heof
                rw [if_neg heof] at h
                exact ih h

theorem seek_closesOwn {set : TokenKind → Bool} (hset : set .rBrace = true) (index : Nat) :
    sentence.ClosesOwn index (sentence.seek set index) := by
  refine .of_ne fun skipped hle hlt hkind => ?_
  have hnot := not_mem_of_lt_seekWithin hle hlt
  rw [hkind, hset] at hnot
  cases hnot

theorem ne_rBrace_of_depth {kind : TokenKind} {depth : Nat}
    (hzero : kind = .rBrace → depth = 0 → False)
    (hsucc : ∀ inner, kind = .rBrace → depth = inner + 1 → False) : kind ≠ .rBrace := by
  intro hkind
  cases depth with
  | zero => exact hzero hkind rfl
  | succ inner => exact hsucc inner hkind rfl

theorem memberBoundaryWithin_closesWithin (starts : TokenKind → Bool) (n depth index : Nat) :
    ClosesWithin depth
      (sentence.kinds index (sentence.memberBoundaryWithin starts n depth index)) := by
  induction n generalizing depth index with
  | zero =>
      rw [memberBoundaryWithin, kinds_self]
      exact .nil
  | succ n ih =>
      have hnext : ∀ depth, index < sentence.memberBoundaryWithin starts n depth (index + 1) :=
        fun depth => (memberBoundaryWithin_bounds starts n depth (index + 1)).1
      have hstay : ClosesWithin depth (sentence.kinds index index) := by
        rw [kinds_self]
        exact .nil
      simp only [memberBoundaryWithin]
      split
      · exact hstay
      · split
        · rename_i hkind
          rw [kinds_cons (hnext _), hkind]
          exact .opened (ih _ _)
        · exact hstay
        · rename_i hkind
          rw [kinds_cons (hnext _), hkind]
          exact .closed (ih _ _)
        · rename_i hclose hinner
          rw [kinds_cons (hnext _)]
          exact .cons (ne_rBrace_of_depth hclose hinner) (ih _ _)

theorem accessorBoundaryWithin_closesWithin (n depth index : Nat) :
    ClosesWithin depth
      (sentence.kinds index (sentence.accessorBoundaryWithin n depth index)) := by
  induction n generalizing depth index with
  | zero =>
      rw [accessorBoundaryWithin, kinds_self]
      exact .nil
  | succ n ih =>
      have hnext : ∀ depth, index < sentence.accessorBoundaryWithin n depth (index + 1) :=
        fun depth => (accessorBoundaryWithin_bounds n depth (index + 1)).1
      have hstay : ClosesWithin depth (sentence.kinds index index) := by
        rw [kinds_self]
        exact .nil
      simp only [accessorBoundaryWithin]
      split
      · exact hstay
      · rename_i hkind
        rw [kinds_cons (hnext _), hkind]
        exact .opened (ih _ _)
      · exact hstay
      · rename_i hkind
        rw [kinds_cons (hnext _), hkind]
        exact .closed (ih _ _)
      · rename_i hkind
        rw [kinds_cons (Nat.lt_succ_self index), hkind, kinds_self]
        exact .cons (by decide) .nil
      · rename_i hclose _
        split
        · exact hstay
        · rw [kinds_cons (hnext _)]
          exact .cons hclose (ih _ _)
      · rename_i hclose hinner _
        rw [kinds_cons (hnext _)]
        exact .cons (ne_rBrace_of_depth hclose hinner) (ih _ _)

end Sentence

/-- Whether what recovery skips at the fault takes a `}` that it has not opened: a statement
that is skipped is one, or one stands where a parameter without a name is skipped. -/
def Fault.TakesBrace (sentence : Sentence) : Fault → Prop
  | skippedStmt place => sentence.kindAt place = .rBrace
  | noName place =>
      sentence.kindAt (sentence.seek
        (fun kind => kind == .rBrace || TokenSet.parameterRecovery.contains kind) place) = .rBrace
  | _ => False

instance (sentence : Sentence) : DecidablePred (Fault.TakesBrace sentence)
  | .skippedStmt _ | .noName _ => inferInstanceAs (Decidable (_ = _))
  | .missingExpr _ | .skippedRef _ | .shortTuple _ | .noOperator _ =>
      inferInstanceAs (Decidable False)

theorem Fault.noName_closesOwn {sentence : Sentence} {place : Nat}
    (h : ¬(noName place).TakesBrace sentence) :
    sentence.ClosesOwn place (sentence.seek TokenSet.parameterRecovery.contains place) := by
  have hother : (sentence.kindAt (sentence.seek
      (fun kind => kind == .rBrace || TokenSet.parameterRecovery.contains kind) place) ==
        .rBrace) = false := beq_eq_false_iff_ne.mpr h
  rw [Sentence.seek, ← Sentence.seekWithin_or _ (· == .rBrace) hother]
  exact Sentence.seek_closesOwn rfl place

end TolerantSyntax
