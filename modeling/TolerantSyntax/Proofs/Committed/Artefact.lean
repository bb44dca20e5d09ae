import TolerantSyntax.Proofs.Flatten.Tree
import TolerantSyntax.Proofs.RoundTrip.TypeParts

/-!
# Artefacts of types

What recovery leaves in a tree can be seen in its pieces.  Where a type stands for a well-formed
term it has left nothing.
-/

namespace TolerantSyntax

namespace Piece

def isArtefact : Piece → Bool
  | artefact _ => true
  | _ => false

/-- No piece comes from recovery. -/
def Sound (pieces : List Piece) : Prop := ∀ piece ∈ pieces, piece.isArtefact = false

instance (pieces : List Piece) : Decidable (Sound pieces) :=
  inferInstanceAs (Decidable (∀ piece ∈ pieces, piece.isArtefact = false))

section Parts

variable {piece : Piece} {left right rest : List Piece}

@[simp] theorem sound_nil : Sound [] := nofun

@[simp] theorem sound_cons :
    Sound (piece :: rest) ↔ piece.isArtefact = false ∧ Sound rest := List.forall_mem_cons

@[simp] theorem sound_append : Sound (left ++ right) ↔ Sound left ∧ Sound right :=
  List.forall_mem_append

@[simp] theorem sound_optional (token? : Option Nat) : Sound (optional token?) := by
  cases token? <;> simp [optional, isArtefact]

@[simp] theorem sound_required {token? : Option Nat} :
    Sound (required token?) ↔ token?.isSome = true := by
  cases token? <;> simp [required, isArtefact]

theorem sound_flatMap {α : Type} {values : List α} {pieces : α → List Piece} :
    Sound (values.flatMap pieces) ↔ ∀ value ∈ values, Sound (pieces value) := by
  simp only [Sound, List.mem_flatMap]
  exact ⟨fun h value hvalue piece hpiece => h piece ⟨value, hvalue, hpiece⟩,
    fun h piece ⟨value, hvalue, hpiece⟩ => h value hvalue piece hpiece⟩

theorem sound_joined {parts : List (List Piece)} :
    Sound (joined parts) ↔ ∀ part ∈ parts, Sound part := by
  cases parts with
  | nil => simp [joined]
  | cons part rest =>
      rw [joined_cons, sound_append, sound_flatMap, List.forall_mem_cons]
      simp [isArtefact]

end Parts
end Piece

theorem sound_skippedPieces {ref? : Option Nat} :
    Piece.Sound (skippedPieces ref?) ↔ ref? = none := by
  cases ref? <;> simp [skippedPieces, Piece.isArtefact]

theorem sound_elements {elements : List ElementType} :
    Piece.Sound (Piece.joined (elementPieces elements)) ↔
      ∀ element ∈ elements, Piece.Sound element.pieces := by
  rw [Piece.sound_joined, elementPieces_eq, List.forall_mem_map]

theorem sound_rank {rank : ArrayRank} :
    Piece.Sound rank.pieces ↔ rank.closing?.isSome = true := by
  have hcommas : Piece.Sound (List.replicate (rank.dimensions - 1) (.symbol .comma)) :=
    fun piece hpiece => by rw [List.eq_of_mem_replicate hpiece]; rfl
  simp [ArrayRank.pieces, Piece.isArtefact, hcommas]

theorem sound_ranks {ranks : List ArrayRank} :
    Piece.Sound (ranks.flatMap (·.pieces)) ↔ ∀ rank ∈ ranks, rank.closing?.isSome = true := by
  simp only [Piece.sound_flatMap, sound_rank]

theorem ArrayRank.closed_of_dimensions {ranks : List ArrayRank} {dimensions : List Nat}
    (h : dimensions? ranks = some dimensions) : ∀ rank ∈ ranks, rank.closing?.isSome = true := by
  induction ranks generalizing dimensions with
  | nil => nofun
  | cons rank rest ih =>
      obtain ⟨opening, count, closing?⟩ := rank
      cases closing? with
      | none => cases h
      | some closing =>
          simp only [dimensions?, Option.pure_def, Option.bind_eq_bind, Option.bind_eq_some_iff,
            Option.some.injEq] at h
          obtain ⟨counts, hrest, -⟩ := h
          exact List.forall_mem_cons.mpr ⟨rfl, ih hrest⟩

namespace TypeTerm

variable {term : TypeTerm}

theorem isName_of_isSimple (h : term.isSimple = true) : term.isName = true := by
  cases term <;> first | rfl | cases h

theorem isArray_of_isName (h : term.isName = true) : term.isArray = false := by
  cases term <;> first | rfl | cases h

end TypeTerm

mutual

theorem TypeSyntax.sound_of_term {word : Nat → Spelling} (tree : TypeSyntax) {term : TypeTerm}
    (hterm : term.WellFormed) (h : tree.term? word = some term) : Piece.Sound tree.pieces := by
  match tree with
  | .predefined .. | .named .. => simp [TypeSyntax.pieces, Piece.isArtefact]
  | .generic _ _ _ args none => cases h
  | .generic _ _ _ args (some gt) =>
      simp only [TypeSyntax.term?, Option.pure_def, Option.bind_eq_bind, Option.bind_eq_some_iff,
        Option.some.injEq] at h
      obtain ⟨terms, hargs, rfl⟩ := h
      cases hterm with
      | generic _ _ hterms _ =>
          have hsound := sound_of_terms args hterms hargs
          simpa [TypeSyntax.pieces, Piece.isArtefact, sound_elements] using hsound
  | .qualified _ left _ right =>
      simp only [TypeSyntax.term?, Option.pure_def, Option.bind_eq_bind, Option.bind_eq_some_iff,
        Option.some.injEq] at h
      obtain ⟨first, hfirst, last, hlast, rfl⟩ := h
      cases hterm with
      | qualified _ _ hleft hright =>
          simp [TypeSyntax.pieces, Piece.isArtefact, left.sound_of_term hleft hfirst,
            right.sound_of_term hright hlast]
  | .array _ element ranks =>
      simp only [TypeSyntax.term?, Option.pure_def, Option.bind_eq_bind, Option.bind_eq_some_iff,
        Option.some.injEq] at h
      obtain ⟨inner, hinner, dimensions, hranks, rfl⟩ := h
      cases hterm with
      | array _ _ _ helement =>
          rw [TypeSyntax.pieces, Piece.sound_append, sound_ranks]
          exact ⟨element.sound_of_term helement hinner, ArrayRank.closed_of_dimensions hranks⟩
  | .pointer _ inner _ =>
      simp only [TypeSyntax.term?, Option.pure_def, Option.bind_eq_bind, Option.bind_eq_some_iff,
        Option.some.injEq] at h
      obtain ⟨term, hinner, rfl⟩ := h
      cases hterm with
      | pointer hterm =>
          simp [TypeSyntax.pieces, Piece.isArtefact, inner.sound_of_term hterm hinner]
  | .nullable _ inner _ =>
      simp only [TypeSyntax.term?, Option.pure_def, Option.bind_eq_bind, Option.bind_eq_some_iff,
        Option.some.injEq] at h
      obtain ⟨term, hinner, rfl⟩ := h
      cases hterm with
      | nullable _ hterm =>
          simp [TypeSyntax.pieces, Piece.isArtefact, inner.sound_of_term hterm hinner]
  | .tuple _ _ elements none => cases h
  | .tuple _ _ elements (some closing) =>
      simp only [TypeSyntax.term?, Option.pure_def, Option.bind_eq_bind, Option.bind_eq_some_iff,
        Option.some.injEq] at h
      obtain ⟨terms, helements, rfl⟩ := h
      cases hterm with
      | tuple hlong hterms =>
          rw [← Parse.length_of_terms helements] at hlong
          have hsound := sound_of_terms elements hterms helements
          simpa [TypeSyntax.pieces, Piece.isArtefact, sound_elements, Nat.not_lt.mpr hlong]
            using hsound
  | .byRef .. | .missing _ => cases h

theorem ElementType.sound_of_term {word : Nat → Spelling} (tree : ElementType)
    {element : ElementTerm} (hterm : element.type.WellFormed) (h : tree.term? word = some element) :
    Piece.Sound tree.pieces := by
  match tree with
  | .mk _ none none type name? =>
      simp only [ElementType.term?, Option.pure_def, Option.bind_eq_bind, Option.bind_eq_some_iff,
        Option.some.injEq] at h
      obtain ⟨term, htype, rfl⟩ := h
      have hsound := type.sound_of_term hterm htype
      simpa [ElementType.pieces, sound_skippedPieces] using hsound
  | .mk _ (some _) _ _ _ | .mk _ none (some _) _ _ => cases h

theorem sound_of_terms {word : Nat → Spelling} (trees : List ElementType)
    {terms : List ElementTerm} (hterms : ∀ element ∈ terms, element.type.WellFormed)
    (h : elementTerms? word trees = some terms) : ∀ tree ∈ trees, Piece.Sound tree.pieces := by
  match trees with
  | [] => nofun
  | tree :: rest =>
      simp only [elementTerms?, Option.pure_def, Option.bind_eq_bind, Option.bind_eq_some_iff,
        Option.some.injEq] at h
      obtain ⟨element, helement, elements, hrest, rfl⟩ := h
      obtain ⟨hterm, hterms⟩ := List.forall_mem_cons.mp hterms
      exact List.forall_mem_cons.mpr
        ⟨tree.sound_of_term hterm helement, sound_of_terms rest hterms hrest⟩

end

end TolerantSyntax
