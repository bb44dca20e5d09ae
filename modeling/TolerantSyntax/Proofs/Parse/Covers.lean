import TolerantSyntax.Proofs.Flatten.Piece
import TolerantSyntax.Proofs.Parse.Loops

/-!
# Covering

From one state to a later one a parse has taken some symbols and made some findings.  The
pieces of what it gives cover the step when they spell exactly the symbols taken, unless
an error was noted on the way.  Errors are the findings that do not only name a feature.
-/

namespace TolerantSyntax

def Finding.isError : Finding → Bool
  | uses .. => false
  | _ => true

def ParseState.errors (state : ParseState) : Nat := state.findings.countP (·.isError)

namespace Sentence

variable {sentence : Sentence} {index : Nat}

theorem kindAt_eq_eof (h : sentence.size ≤ index) : sentence.kindAt index = .eof := by
  unfold kindAt
  rw [Array.getElem?_eq_none (by unfold size at h; omega)]

theorem kindAt_of_left (h : sentence.left index = 0) : sentence.kindAt index = .eof :=
  kindAt_eq_eof (Nat.le_of_sub_eq_zero h)

theorem lt_size_of_kindAt (h : sentence.kindAt index ≠ .eof) : index < sentence.size := by
  refine Nat.lt_of_not_le fun hsize => ?_
  exact h (kindAt_eq_eof hsize)

theorem left_succ_le {n : Nat} (h : sentence.left index ≤ n + 1) :
    sentence.left (index + 1) ≤ n := by
  unfold left at h ⊢
  omega

theorem qualifierAt_iff :
    sentence.qualifierAt index = true ↔ sentence.kindAt index = .refKw ∨
      sentence.kindAt index = .readonlyKw ∧ sentence.kindAt (index + 1) = .refKw := by
  unfold qualifierAt
  split
  · rename_i href
    simp [href]
  · rename_i hreadonly
    simp [hreadonly]
  · rename_i href hreadonly
    refine ⟨nofun, ?_⟩
    rintro (hyes | ⟨hyes, -⟩)
    · exact absurd hyes href
    · exact absurd hyes hreadonly

theorem kindAt_of_rankAt (h : sentence.rankAt index = true) :
    sentence.kindAt index = .lBracket := by
  simp only [rankAt, Bool.and_eq_true, beq_iff_eq] at h
  exact h.1

theorem rankAt_of_ne (h : sentence.kindAt index ≠ .lBracket) :
    sentence.rankAt index = false := by
  simp [rankAt, h]

theorem seekWithin_bounds (set : TokenKind → Bool) (n : Nat) (index : Nat) :
    index ≤ sentence.seekWithin set n index ∧ sentence.seekWithin set n index ≤ index + n := by
  induction n generalizing index with
  | zero => simp [seekWithin]
  | succ n ih =>
      unfold seekWithin
      have hnext := ih (index + 1)
      split <;> omega

theorem memberBoundaryWithin_bounds (starts : TokenKind → Bool) (n depth index : Nat) :
    index ≤ sentence.memberBoundaryWithin starts n depth index ∧
      sentence.memberBoundaryWithin starts n depth index ≤ index + n := by
  induction n generalizing depth index with
  | zero => simp [memberBoundaryWithin]
  | succ n ih =>
      have hnext : ∀ depth, index ≤ sentence.memberBoundaryWithin starts n depth (index + 1) ∧
          sentence.memberBoundaryWithin starts n depth (index + 1) ≤ index + (n + 1) := by
        intro depth
        have := ih depth (index + 1)
        omega
      simp only [memberBoundaryWithin]
      repeat' split
      all_goals first | exact hnext _ | omega

theorem accessorBoundaryWithin_bounds (n depth index : Nat) :
    index ≤ sentence.accessorBoundaryWithin n depth index ∧
      sentence.accessorBoundaryWithin n depth index ≤ index + n := by
  induction n generalizing depth index with
  | zero => simp [accessorBoundaryWithin]
  | succ n ih =>
      have hnext : ∀ depth, index ≤ sentence.accessorBoundaryWithin n depth (index + 1) ∧
          sentence.accessorBoundaryWithin n depth (index + 1) ≤ index + (n + 1) := by
        intro depth
        have := ih depth (index + 1)
        omega
      simp only [accessorBoundaryWithin]
      repeat' split
      all_goals first | exact hnext _ | omega

end Sentence

/-- From `before` to `after` no symbol and no finding is given back, and `pieces` spell the
symbols taken when no error is new. -/
structure Sentence.Covers (sentence : Sentence) (pieces : List Piece)
    (before after : ParseState) : Prop where
  forward : before.position ≤ after.position
  within : after.position ≤ max before.position sentence.size
  noted : before.findings <:+ after.findings
  spells : after.errors = before.errors →
    sentence.Spells pieces before.position after.position

namespace Sentence.Covers

variable {sentence : Sentence} {pieces other : List Piece} {before middle after : ParseState}

theorem errors_le (h : sentence.Covers pieces before after) : before.errors ≤ after.errors :=
  h.noted.sublist.countP_le

theorem refl : sentence.Covers [] before before :=
  ⟨Nat.le_refl _, Nat.le_max_left .., List.suffix_refl _, fun _ => rfl⟩

theorem trans (hleft : sentence.Covers pieces before middle)
    (hright : sentence.Covers other middle after) :
    sentence.Covers (pieces ++ other) before after := by
  have hle := hleft.errors_le
  have hle' := hright.errors_le
  refine ⟨Nat.le_trans hleft.forward hright.forward, ?_, hleft.noted.trans hright.noted, ?_⟩
  · have hwithin := hleft.within
    have hwithin' := hright.within
    omega
  · intro herrors
    exact (hleft.spells (by omega)).append (hright.spells (by omega))

theorem imp (h : sentence.Covers pieces before after)
    (himp : sentence.Spells pieces before.position after.position →
      sentence.Spells other before.position after.position) :
    sentence.Covers other before after :=
  ⟨h.forward, h.within, h.noted, fun herrors => himp (h.spells herrors)⟩

/-- Behind a new error all pieces will do. -/
theorem loud (h : sentence.Covers pieces before after)
    (herrors : before.errors < after.errors) : sentence.Covers other before after :=
  ⟨h.forward, h.within, h.noted, fun hsame => by omega⟩

/-- An artefact never comes without an error. -/
theorem errors_lt (artefact : Artefact) (h : sentence.Covers pieces before after)
    (hmem : .artefact artefact ∈ pieces) : before.errors < after.errors := by
  refine Nat.lt_of_not_le fun hle => ?_
  have hsame := Nat.le_antisymm hle h.errors_le
  exact (h.spells hsame).not_mem_artefact artefact hmem

theorem token (hkind : sentence.kindAt before.position ≠ .eof) :
    sentence.Covers [.token before.position] before
      { before with position := before.position + 1 } := by
  have hsize := lt_size_of_kindAt hkind
  exact ⟨Nat.le_succ _, by simp only; omega, List.suffix_refl _, fun _ => ⟨rfl, rfl⟩⟩

theorem symbol {kind : TokenKind} (hkind : sentence.kindAt before.position = kind)
    (heof : kind ≠ .eof) :
    sentence.Covers [.symbol kind] before
      { before with position := before.position + 1 } :=
  (token (by rw [hkind]; exact heof)).imp fun h => ⟨hkind, h.2⟩

theorem uses (feature : Feature) (place : Nat) :
    sentence.Covers [] before
      { before with findings := .uses feature place :: before.findings } :=
  ⟨Nat.le_refl _, Nat.le_max_left .., List.suffix_cons .., fun _ => rfl⟩

theorem error {finding : Finding} (h : sentence.Covers pieces before after)
    (hfinding : finding.isError = true) :
    sentence.Covers other before { after with findings := finding :: after.findings } := by
  have herrors : ({ after with findings := finding :: after.findings } : ParseState).errors =
      after.errors + 1 := by simp [ParseState.errors, hfinding]
  have hle := h.errors_le
  refine ⟨h.forward, h.within, h.noted.trans (List.suffix_cons ..), fun hsame => ?_⟩
  omega

theorem complete (exprs : ExprTable) :
    sentence.Covers [] before { before with exprs } :=
  ⟨Nat.le_refl _, Nat.le_max_left .., List.suffix_refl _, fun _ => rfl⟩

theorem skip (h : sentence.Covers pieces before after)
    (herrors : before.errors < after.errors) {stop : Nat} (hforward : after.position ≤ stop)
    (hwithin : stop ≤ max after.position sentence.size) :
    sentence.Covers other before { after with position := stop } := by
  refine ⟨Nat.le_trans h.forward hforward, ?_, h.noted, fun hsame => ?_⟩
  · have := h.within
    simp only
    omega
  · have hsame' : after.errors = before.errors := hsame
    omega

end Sentence.Covers
end TolerantSyntax
