import TolerantSyntax.Grammar.Sentence

/-!
# Pieces

A tree stands for a sequence of tokens: those that it stores, and the punctuation that its
shape implies.  A piece is one of these, or a trace of recovery, which stands for no
tokens at all.  Pieces spell a part of a sentence when they name its symbols one by one.
-/

namespace TolerantSyntax

/-- What recovery leaves in a tree. -/
inductive Artefact where
  | missingType
  | missingExpr
  | skippedStmt
  | skippedMember
  | incompleteMember
  /-- A token that the grammar requires and the text does not have. -/
  | absentToken
  | skippedRef
  | shortTuple
deriving DecidableEq, Repr

inductive Piece where
  | token (index : Nat)
  | symbol (kind : TokenKind)
  /-- The comma that may stand behind the last element of an array initializer. -/
  | trailingComma
  | artefact (artefact : Artefact)
deriving DecidableEq, Repr

namespace Piece

def optional (token? : Option Nat) : List Piece := token?.toList.map .token

def required : Option Nat → List Piece
  | some index => [.token index]
  | none => [.artefact .absentToken]

def joined : List (List Piece) → List Piece
  | [] => []
  | [part] => part
  | part :: next :: rest => part ++ .symbol .comma :: joined (next :: rest)

def listed : List (List Piece) → List Piece
  | [] => []
  | part :: rest => joined (part :: rest) ++ [.trailingComma]

def separated (parts : List (List Piece)) : List Piece :=
  parts.flatMap (· ++ [.symbol .comma])

theorem joined_append_singleton (parts : List (List Piece)) (last : List Piece) :
    joined (parts ++ [last]) = separated parts ++ last := by
  induction parts with
  | nil => rfl
  | cons part rest ih =>
      cases rest with
      | nil => simp [joined, separated]
      | cons next rest =>
          have hjoin : joined (part :: next :: rest ++ [last]) =
              part ++ .symbol .comma :: joined (next :: rest ++ [last]) := rfl
          rw [hjoin, ih]
          simp [separated]

theorem joined_cons (part : List Piece) (rest : List (List Piece)) :
    joined (part :: rest) = part ++ rest.flatMap (.symbol .comma :: ·) := by
  induction rest generalizing part with
  | nil => simp [joined]
  | cons next rest ih => simp [joined, ih]

end Piece

/-- The kinds that pieces stand for, given the kind of every token.  A trailing comma stands
for a comma or for nothing, and an artefact for no kinds at all. -/
inductive Piece.Yield (kindAt : Nat → TokenKind) : List Piece → List TokenKind → Prop where
  | nil : Yield kindAt [] []
  | token {pieces : List Piece} {kinds : List TokenKind} (index : Nat)
      (hrest : Yield kindAt pieces kinds) :
      Yield kindAt (.token index :: pieces) (kindAt index :: kinds)
  | symbol {pieces : List Piece} {kinds : List TokenKind} (kind : TokenKind)
      (hrest : Yield kindAt pieces kinds) :
      Yield kindAt (.symbol kind :: pieces) (kind :: kinds)
  | comma {pieces : List Piece} {kinds : List TokenKind} (hrest : Yield kindAt pieces kinds) :
      Yield kindAt (.trailingComma :: pieces) (.comma :: kinds)
  | noComma {pieces : List Piece} {kinds : List TokenKind} (hrest : Yield kindAt pieces kinds) :
      Yield kindAt (.trailingComma :: pieces) kinds

namespace Sentence

/-- The pieces name the symbols from `start` up to `stop`, one after the other. -/
def Spells (sentence : Sentence) : List Piece → Nat → Nat → Prop
  | [], start, stop => start = stop
  | .token index :: rest, start, stop => index = start ∧ sentence.Spells rest (start + 1) stop
  | .symbol kind :: rest, start, stop =>
      sentence.kindAt start = kind ∧ sentence.Spells rest (start + 1) stop
  | .trailingComma :: rest, start, stop =>
      sentence.Spells rest start stop ∨
        sentence.kindAt start = .comma ∧ sentence.Spells rest (start + 1) stop
  | .artefact _ :: _, _, _ => False

variable {sentence : Sentence}

theorem spells_append {left right : List Piece} {start stop : Nat} :
    sentence.Spells (left ++ right) start stop ↔
      ∃ middle, sentence.Spells left start middle ∧ sentence.Spells right middle stop := by
  induction left generalizing start with
  | nil => simp [Spells]
  | cons piece rest ih =>
      cases piece with
      | token index => simp [Spells, ih, and_assoc]
      | symbol kind => simp [Spells, ih, and_assoc]
      | trailingComma =>
          simp only [List.cons_append, Spells, ih]
          constructor
          · rintro (⟨middle, h⟩ | ⟨hkind, middle, h⟩)
            · exact ⟨middle, .inl h.1, h.2⟩
            · exact ⟨middle, .inr ⟨hkind, h.1⟩, h.2⟩
          · rintro ⟨middle, h | h, hright⟩
            · exact .inl ⟨middle, h, hright⟩
            · exact .inr ⟨h.1, middle, h.2, hright⟩
      | artefact artefact => simp [Spells]

theorem Spells.append {left right : List Piece} {start middle stop : Nat}
    (hleft : sentence.Spells left start middle) (hright : sentence.Spells right middle stop) :
    sentence.Spells (left ++ right) start stop :=
  spells_append.mpr ⟨middle, hleft, hright⟩

theorem Spells.not_mem_artefact {pieces : List Piece} {start stop : Nat}
    (h : sentence.Spells pieces start stop) (artefact : Artefact) :
    .artefact artefact ∉ pieces := by
  induction pieces generalizing start with
  | nil => simp
  | cons piece rest ih =>
      cases piece with
      | token index => simpa using ih h.2
      | symbol kind => simpa using ih h.2
      | trailingComma =>
          rcases h with h | h
          · simpa using ih h
          · simpa using ih h.2
      | artefact other => exact h.elim

theorem Spells.listed_of_joined {parts : List (List Piece)} {start stop : Nat}
    (hparts : parts ≠ []) (h : sentence.Spells (Piece.joined parts) start stop) :
    sentence.Spells (Piece.listed parts) start stop := by
  cases parts with
  | nil => exact absurd rfl hparts
  | cons part rest => exact h.append (.inl rfl)

theorem Spells.listed_of_separated {parts : List (List Piece)} {start stop : Nat}
    (h : sentence.Spells (Piece.separated parts) start stop) :
    sentence.Spells (Piece.listed parts) start stop := by
  rcases List.eq_nil_or_concat parts with rfl | ⟨init, last, rfl⟩
  · exact h
  · have hsplit : Piece.separated (init ++ [last]) =
        Piece.joined (init ++ [last]) ++ [.symbol .comma] := by
      rw [Piece.joined_append_singleton]
      simp [Piece.separated]
    have hlisted : Piece.listed (init ++ [last]) =
        Piece.joined (init ++ [last]) ++ [.trailingComma] := by
      cases init with
      | nil => rfl
      | cons first init => rfl
    rw [List.concat_eq_append, hsplit] at h
    rw [List.concat_eq_append, hlisted]
    obtain ⟨middle, hjoined, hcomma⟩ := spells_append.mp h
    exact hjoined.append (.inr hcomma)

theorem Spells.le {pieces : List Piece} {start stop : Nat}
    (h : sentence.Spells pieces start stop) : start ≤ stop := by
  induction pieces generalizing start with
  | nil => exact Nat.le_of_eq h
  | cons piece rest ih =>
      cases piece with
      | token index =>
          have := ih h.2
          omega
      | symbol kind =>
          have := ih h.2
          omega
      | trailingComma =>
          rcases h with h | h
          · exact ih h
          · have := ih h.2
            omega
      | artefact artefact => exact h.elim

theorem Spells.lt {pieces : List Piece} {piece : Piece} {start stop : Nat}
    (h : sentence.Spells pieces start stop) (hmem : piece ∈ pieces)
    (hpiece : piece ≠ .trailingComma) : start < stop := by
  obtain ⟨left, right, rfl⟩ := List.append_of_mem hmem
  obtain ⟨middle, hleft, hright⟩ := spells_append.mp h
  have hle := hleft.le
  cases piece with
  | token index =>
      have := hright.2.le
      omega
  | symbol kind =>
      have := hright.2.le
      omega
  | trailingComma => exact absurd rfl hpiece
  | artefact artefact => exact hright.elim

/-- Pieces that spell a part of a sentence stand for its kinds. -/
theorem Spells.yield {pieces : List Piece} {start stop : Nat} {kindAt : Nat → TokenKind}
    (h : sentence.Spells pieces start stop)
    (hkinds : ∀ index < stop, sentence.kindAt index = kindAt index) :
    Piece.Yield kindAt pieces ((List.range' start (stop - start)).map kindAt) := by
  induction pieces generalizing start with
  | nil =>
      rw [show start = stop from h, Nat.sub_self]
      exact .nil
  | cons piece rest ih =>
      have hstep : ∀ {next : List Piece}, sentence.Spells next (start + 1) stop →
          (List.range' start (stop - start)).map kindAt =
            kindAt start :: (List.range' (start + 1) (stop - (start + 1))).map kindAt := by
        intro next hnext
        have hle := hnext.le
        rw [show stop - start = stop - (start + 1) + 1 by omega, List.range'_succ, List.map_cons]
      cases piece with
      | token index =>
          obtain ⟨rfl, hrest⟩ := h
          rw [hstep hrest]
          exact .token index (ih hrest)
      | symbol kind =>
          obtain ⟨rfl, hrest⟩ := h
          rw [hstep hrest, hkinds start hrest.le]
          exact .symbol _ (ih hrest)
      | trailingComma =>
          rcases h with hrest | ⟨hcomma, hrest⟩
          · exact .noComma (ih hrest)
          · rw [hstep hrest, ← hkinds start hrest.le, hcomma]
            exact .comma (ih hrest)
      | artefact artefact => exact h.elim

end Sentence
end TolerantSyntax
