import TolerantSyntax.Proofs.Flatten.Tree
import TolerantSyntax.Proofs.Parse.Covers

/-!
# Reading pieces

`Reads parse input pieces` says that from every state the pieces of what `parse` gives
cover its step.  The parts of the grammar that carry no tree of their own are read here.
-/

namespace TolerantSyntax.Parse

variable {α : Type} {input : Input} {state origin : ParseState} {pieces : α → List Piece}

def Reads (parse : Parse α) (input : Input) (pieces : α → List Piece) : Prop :=
  ∀ state, Ends parse input state fun value after =>
    input.sentence.Covers (pieces value) state after

theorem advance_covers (hkind : input.sentence.kindAt state.position ≠ .eof) :
    Ends advance input state fun index after =>
      index = state.position ∧ after.position = state.position + 1 ∧
        input.sentence.Covers [.token index] state after := by
  unfold Ends
  rw [Ends.advance_eq hkind]
  exact ⟨rfl, rfl, .token hkind⟩

theorem advance_implied {kind : TokenKind}
    (hkind : input.sentence.kindAt state.position = kind) (heof : kind ≠ .eof) :
    Ends advance input state fun _ after =>
      input.sentence.Covers [.symbol kind] state after := by
  unfold Ends
  rw [Ends.advance_eq (by rw [hkind]; exact heof)]
  exact .symbol hkind heof

theorem uses_covers (feature : Feature) :
    Ends (noteHere (.uses feature)) input state fun _ after =>
      after.position = state.position ∧ input.sentence.Covers [] state after :=
  ⟨rfl, .uses feature state.position⟩

theorem noteUses_covers (feature : Feature) (place : Nat) :
    Ends (note (.uses feature place)) input state fun _ after =>
      input.sentence.Covers [] state after := .uses feature place

theorem note_covers {finding : Finding} {some any : List Piece}
    (h : input.sentence.Covers some origin state) (hfinding : finding.isError = true) :
    Ends (note finding) input state fun _ after =>
      input.sentence.Covers any origin after := h.error hfinding

theorem noteHere_covers {finding : Nat → Finding} {some : List Piece} (any : List Piece)
    (h : input.sentence.Covers some origin state)
    (hfinding : (finding state.position).isError = true) :
    Ends (noteHere finding) input state fun _ after =>
      after.position = state.position ∧ input.sentence.Covers any origin after :=
  ⟨rfl, h.error hfinding⟩

theorem eat_covers {kind : TokenKind} (hkind : kind ≠ .eof) :
    Reads (eat kind) input Piece.optional := by
  intro state
  apply (eat_ends hkind).imp
  intro token? after h
  rcases h with ⟨hyes, rfl, rfl⟩ | ⟨hno, rfl, rfl⟩
  · exact .token (by rw [hyes]; exact hkind)
  · exact .refl

theorem expect_covers {kind : TokenKind} (hkind : kind ≠ .eof) :
    Reads (expect kind) input Piece.required := by
  intro state
  apply (expect_ends hkind).imp
  intro token? after h
  rcases h with ⟨hyes, rfl, rfl⟩ | ⟨hno, rfl, rfl⟩
  · exact .token (by rw [hyes]; exact hkind)
  · exact Sentence.Covers.refl.error rfl

theorem expect_implied {kind : TokenKind} (hkind : kind ≠ .eof) :
    Reads (expect kind) input fun _ => [.symbol kind] := by
  intro state
  apply (expect_ends hkind).imp
  intro token? after h
  rcases h with ⟨hyes, rfl, rfl⟩ | ⟨hno, rfl, rfl⟩
  · exact .symbol hyes hkind
  · exact Sentence.Covers.refl.error rfl

theorem complete_covers {start : Nat} {make : ExprInfo → Expr}
    (h : ∀ info, input.sentence.Covers (make info).pieces origin state) :
    Ends (complete start make) input state fun expr after =>
      input.sentence.Covers expr.pieces origin after := by
  have hcomplete := (h ⟨state.exprs.size, ⟨start, max start state.position⟩⟩).trans
    (.complete (state.exprs.add ⟨start, max start state.position⟩ make).2)
  rw [List.append_nil] at hcomplete
  exact hcomplete

theorem moveTo_covers {place : Sentence → Nat → Nat} {some : List Piece} (any : List Piece)
    (h : input.sentence.Covers some origin state) (herrors : origin.errors < state.errors)
    (hplace : ∀ index, index ≤ place input.sentence index ∧
      place input.sentence index ≤ index + input.sentence.left index) :
    Ends (moveTo place) input state fun _ after =>
      input.sentence.Covers any origin after := by
  obtain ⟨hforward, hwithin⟩ := hplace state.position
  refine h.skip herrors hforward ?_
  unfold Sentence.left at hwithin
  omega

theorem synchronize_covers {set : TokenSet} {some : List Piece} (any : List Piece)
    (h : input.sentence.Covers some origin state) (herrors : origin.errors < state.errors) :
    Ends (synchronize set) input state fun _ after =>
      input.sentence.Covers any origin after :=
  moveTo_covers any h herrors fun _ => Sentence.seekWithin_bounds _ _ _

def ReadsSome (item : Parse (Option α)) (input : Input) (pieces : α → List Piece) : Prop :=
  ∀ state, Ends item input state fun value? after =>
    match value? with
    | none => after = state
    | some value => input.sentence.Covers (pieces value) state after

theorem many_covers {item : Parse (Option α)} (hitem : ReadsSome item input pieces) :
    Reads (many item) input (·.flatMap pieces) := by
  intro state
  refine many_ends
    (fun values after => input.sentence.Covers (values.flatMap pieces) state after) ?_ .refl
  intro values before hvalues
  apply (hitem before).imp
  intro value? after h
  cases value? with
  | none => exact h ▸ hvalues
  | some value => simpa using hvalues.trans h

theorem eat_implied {kind : TokenKind} (hkind : kind ≠ .eof) :
    ReadsSome (eat kind) input fun _ => [.symbol kind] := by
  intro state
  apply (eat_ends hkind).imp
  intro token? after h
  rcases h with ⟨hyes, rfl, rfl⟩ | ⟨hno, rfl, rfl⟩
  · exact .symbol hyes hkind
  · rfl

theorem whenever_covers {question : Sentence → Nat → Bool} {parse : Parse α}
    (h : ∀ state, question input.sentence state.position = true →
      Ends parse input state fun value after =>
        input.sentence.Covers (pieces value) state after) :
    ReadsSome (whenever (ask question) parse) input pieces :=
  fun state => whenever_ends (h state) fun _ => rfl

theorem unlessClosed_covers {parse : Parse α} (h : Reads parse input pieces) :
    ReadsSome (unlessClosed parse) input pieces :=
  whenever_covers fun state _ => h state

theorem ReadsSome.reads {item : Parse (Option α)} (hitem : ReadsSome item input pieces) :
    Reads item input fun value? => value?.toList.flatMap pieces := by
  intro state
  apply (hitem state).imp
  intro value? after h
  cases value? with
  | none => exact h ▸ .refl
  | some value => simpa using h

theorem ne_eof_of_contains {set : TokenSet} {kind : TokenKind}
    (hset : set.contains .eof = false) (h : set.contains kind = true) : kind ≠ .eof := by
  rintro rfl
  rw [hset] at h
  exact absurd h (by decide)

theorem advanceAny_covers {set : TokenSet} (hset : set.contains .eof = false) :
    Reads (whenever (checkAny set) advance) input Piece.optional := by
  intro state
  apply whenever_ends
  · intro hkind
    exact (advance_covers (ne_eof_of_contains hset hkind)).imp fun index after h => h.2.2
  · intro hkind
    exact .refl

theorem separated_covers {item : Parse α} (hitem : Reads item input pieces) :
    Ends (separated item) input state fun values after =>
      values ≠ [] ∧
        input.sentence.Covers (Piece.joined (values.map pieces)) state after := by
  refine separated_ends
    (fun values after =>
      input.sentence.Covers (Piece.separated (values.map pieces)) state after) ?_ .refl
  intro values before hvalues
  refine (hitem before).imp fun value after h => ⟨⟨by simp, ?_⟩, fun hcomma => ?_⟩
  · rw [List.map_append, List.map_singleton, Piece.joined_append_singleton]
    exact hvalues.trans h
  · have hnext := hvalues.trans (h.trans (.symbol hcomma (by decide)))
    simpa [Piece.separated] using hnext

theorem listed_covers {item : Parse α} {closing : TokenKind}
    (hitem : Reads item input pieces) :
    Reads (listed item closing) input fun values => Piece.listed (values.map pieces) := by
  intro state
  refine listed_ends
    (fun values after =>
      input.sentence.Covers (Piece.separated (values.map pieces)) state after) ?_ ?_ .refl
  · intro values after hvalues
    exact hvalues.imp Sentence.Spells.listed_of_separated
  · intro values before hvalues
    refine (hitem before).imp fun value after h => ⟨?_, fun hcomma => ?_⟩
    · apply (hvalues.trans h).imp
      intro hspells
      refine Sentence.Spells.listed_of_joined (by simp) ?_
      rw [List.map_append, List.map_singleton, Piece.joined_append_singleton]
      exact hspells
    · have hnext := hvalues.trans (h.trans (.symbol hcomma (by decide)))
      simpa [Piece.separated] using hnext

theorem braced_covers {items : Parse (List α)} {pieces : List α → List Piece}
    (hitems : Reads items input pieces) :
    Reads (braced items) input fun (opening?, values, closing?) =>
      Piece.required opening? ++ pieces values ++ Piece.required closing? := by
  intro state
  unfold braced
  apply (expect_covers (by decide) state).bind
  intro opening? after₁ hopening
  cases opening? with
  | none =>
      exact .pure (hopening.loud (hopening.errors_lt .absentToken (List.mem_singleton_self _)))
  | some opening =>
      apply (hitems after₁).bind
      intro values after₂ hvalues
      apply (expect_covers (by decide) after₂).bind
      intro closing? after₃ hclosing
      exact .pure ((hopening.trans hvalues).trans hclosing)

end TolerantSyntax.Parse
