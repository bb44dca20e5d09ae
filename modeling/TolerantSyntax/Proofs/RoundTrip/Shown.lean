import TolerantSyntax.Proofs.RoundTrip.Decline
import TolerantSyntax.Proofs.RoundTrip.Term

/-!
# Terms in a sentence

Where the tokens of a term stand in a sentence, an operand begins, and every operator between
two terms is seen as what it is.
-/

namespace TolerantSyntax

namespace Sentence

/-- The signs stand in the sentence from an index on, spelled as told. -/
def Shows (sentence : Sentence) (word : Nat → Spelling) : Nat → List Sign → Prop
  | _, [] => True
  | index, sign :: rest =>
      (sentence.kindAt index = sign.kind ∧ sentence.joinedAt index = sign.joined ∧
        (word index).kind = sign.kind ∧ (word index).text = sign.text) ∧
        sentence.Shows word (index + 1) rest

variable {sentence : Sentence} {word : Nat → Spelling} {index : Nat}

@[simp] theorem shows_nil : sentence.Shows word index [] := trivial

theorem Shows.kind {sign : Sign} {rest : List Sign} (h : sentence.Shows word index (sign :: rest)) :
    sentence.kindAt index = sign.kind := h.1.1

theorem Shows.tail {sign : Sign} {rest : List Sign} (h : sentence.Shows word index (sign :: rest)) :
    sentence.Shows word (index + 1) rest := h.2

theorem shows_append {left right : List Sign} :
    sentence.Shows word index (left ++ right) ↔
      sentence.Shows word index left ∧ sentence.Shows word (index + left.length) right := by
  induction left generalizing index with
  | nil => simp
  | cons sign rest ih =>
      have hindex : index + 1 + rest.length = index + (rest.length + 1) := by omega
      rw [List.cons_append, Shows, Shows, ih, List.length_cons, hindex]
      simp only [and_assoc]

end Sentence

namespace BinaryOp

theorem length_signs (op : BinaryOp) : op.signs.length = op.width := by cases op <;> rfl

theorem exists_signs (op : BinaryOp) : ∃ sign rest, op.signs = sign :: rest ∧
    ofKind? sign.kind ≠ none ∧ (sign.kind = .lt → op = .lt) := by
  cases op <;> exact ⟨_, _, rfl, by decide, by decide⟩

variable {sentence : Sentence} {word : Nat → Spelling} {index : Nat} {op : BinaryOp}

theorem infixAt?_of_shows (h : sentence.Shows word index op.signs)
    (hnext : sentence.kindAt (index + op.signs.length) ≠ .gt) :
    sentence.infixAt? index = some (.binary op) := by
  cases op <;>
    simp_all [signs, symbols, Sign.fixed, Sentence.Shows, Sentence.infixAt?, Sentence.shiftAt,
      ofKind?]

end BinaryOp

namespace Term.WellFormed

variable {sentence : Sentence} {word : Nat → Spelling} {index : Nat} {term : Term}

theorem leadsIn (h : term.WellFormed) (hshows : sentence.Shows word index term.signs) :
    ∃ stop, sentence.LeadsIn index stop := by
  induction h generalizing index with
  | literal hkind htext =>
      exact ⟨index, .of_atom (.inr (by rw [hshows.kind]; exact hkind))⟩
  | this => exact ⟨index, .of_atom (.inl hshows.kind)⟩
  | parenthesized hinner ih =>
      obtain ⟨stop, hstop⟩ := ih (Sentence.shows_append.mp hshows.tail).1
      exact ⟨stop, .cons (by rw [hshows.kind]; rfl) hstop⟩
  | @unary op operand htight hoperand ih =>
      obtain ⟨stop, hstop⟩ := ih hshows.tail
      refine ⟨stop, .cons ?_ hstop⟩
      rw [hshows.kind]
      cases op <;> rfl
  | memberAccess _ _ _ ih | invocation _ _ _ ih | elementAccess _ _ _ _ ih | step _ _ ih =>
      exact ih (Sentence.shows_append.mp hshows).1
  | binary _ _ _ _ ih | conditional _ _ _ _ ih | assign _ _ _ ih =>
      exact ih (Sentence.shows_append.mp hshows).1

theorem head_tight (h : term.WellFormed) (htight : 13 ≤ term.level)
    (hshows : sentence.Shows word index term.signs) :
    sentence.kindAt index = .lParen ∨ sentence.kindAt index = .thisKw ∨
      (sentence.kindAt index).isLiteral = true := by
  induction h generalizing index with
  | literal hkind htext => exact .inr (.inr (by rw [hshows.kind]; exact hkind))
  | this => exact .inr (.inl hshows.kind)
  | parenthesized => exact .inl hshows.kind
  | memberAccess hreceiver _ _ ih | invocation hreceiver _ _ ih | elementAccess hreceiver _ _ _ ih
  | step hreceiver _ ih => exact ih hreceiver (Sentence.shows_append.mp hshows).1
  | @binary op =>
      have hle := op.precedence_le
      simp only [level] at htight
      omega
  | unary | conditional | assign => simp [level] at htight

end Term.WellFormed
end TolerantSyntax
