import Mathlib.Data.List.TakeDrop
import TolerantSyntax.Proofs.Lexer.Cut
import TolerantSyntax.Token.Lexer

/-!
# Lexing loses nothing

Every rule takes a character, so the lexemes cut the text.  The lexer hands them out in
order: what a token takes is one more piece of the text, and only the last token is an
end of file.
-/

namespace TolerantSyntax

open Lexeme (byteLength byteLength_append)

namespace LexemeRule

def Takes (scanned : LexemeRule × Nat) : Prop :=
  1 ≤ scanned.2 ∧ ∀ span text, (Lexeme.mk scanned.1 span text).kind ≠ .eof

theorem takes_token {kind : TokenKind} {n : Nat} (hkind : kind ≠ .eof) (hn : 1 ≤ n) :
    Takes (.token kind, n) := ⟨hn, fun _ _ => hkind⟩

theorem runLength_pos {p : Char → Bool} {c : Char} (h : p c = true) (rest : List Char) :
    1 ≤ runLength p (c :: rest) := by
  unfold runLength
  rw [List.takeWhile_cons_of_pos h]
  simp

theorem number_takes {c : Char} (h : c.isDigit = true) (rest : List Char) :
    Takes (number (c :: rest)) := by
  have hdigits : 1 ≤ runLength isDigitOrUnderscore (c :: rest) :=
    runLength_pos (by simp [isDigitOrUnderscore, h]) rest
  simp only [number]
  split
  · split
    · exact takes_token (by decide) (by omega)
    · exact takes_token (by decide) (by omega)
  · split
    · exact takes_token (by decide) (by omega)
    · split
      · exact takes_token (by decide) (by omega)
      · exact takes_token (by decide) (by omega)
  · exact takes_token (by decide) (by omega)

theorem hexNumber_takes {c : Char} (h : c.isDigit = true) (rest behind : List Char) :
    Takes (hexNumber (c :: rest) behind) := by
  simp only [hexNumber]
  split
  · exact number_takes h rest
  · exact takes_token (by decide) (by omega)

theorem wordKind_cases (text rest : List Char) : wordKind text rest = .identifier ∨
    (wordKind text rest).fixedText? = some (String.ofList text) := by
  unfold wordKind
  split
  · exact .inl rfl
  · rename_i keyword hkeyword
    split
    · exact .inl rfl
    · have hfound := List.find?_some hkeyword
      exact .inr (eq_of_beq hfound)

theorem wordKind_ne_eof (text rest : List Char) : wordKind text rest ≠ .eof := by
  intro heof
  rcases wordKind_cases text rest with hkind | hfixed
  · exact absurd (hkind.symm.trans heof) (by decide)
  · rw [heof] at hfixed
    cases hfixed

theorem word_takes {c : Char} (h : isIdentifierStart c = true) (rest : List Char) :
    Takes (word (c :: rest)) := by
  have hpart : isIdentifierPart c = true := by simp [isIdentifierPart, h]
  exact takes_token (wordKind_ne_eof _ _) (runLength_pos hpart rest)

theorem literal_takes {kind : TokenKind} (hkind : kind ≠ .eof) (quote : Char)
    (rest : List Char) : Takes (literal kind quote rest) := by
  simp only [literal]
  refine ⟨by simp, fun span text => ?_⟩
  cases (literalBody quote rest).2 with
  | true => exact hkind
  | false => exact hkind

theorem verbatim_takes (rest : List Char) : Takes (verbatim rest) := by
  simp only [verbatim]
  refine ⟨by simp, fun span text => ?_⟩
  cases (verbatimBody rest).2 with
  | true => exact nofun
  | false => exact nofun

def punctuationHeads : List Char :=
  ['\x7b', '\x7d', '(', ')', '[', ']', ';', ',', '.', ':', '?', '=', '+', '-', '*', '/', '%', '&',
    '|', '^', '!', '~', '<', '>']

/-- Punctuation of `n` characters stands at the front of `cs`. -/
structure PunctuationAt (cs : List Char) (kind : TokenKind) (n : Nat) : Prop where
  text : kind.fixedText? = some (String.ofList (cs.take n))
  symbol : kind.isKeyword = false
  pos : 1 ≤ n
  le : n ≤ cs.length

-- The one place where the table is taken apart.
theorem punctuation?_cases (cs : List Char) :
    (∃ kind n, punctuation? cs = some (kind, n) ∧ PunctuationAt cs kind n) ∨
      punctuation? cs = none ∧ ∀ c rest, cs = c :: rest → c ∉ punctuationHeads := by
  unfold punctuation?
  split
  case h_46 =>
    refine .inr ⟨rfl, ?_⟩
    rintro c rest rfl
    simp only [List.cons.injEq, not_and', forall_eq', imp_false] at *
    simp only [punctuationHeads, List.mem_cons, List.not_mem_nil, or_false, *, not_false_eq_true]
  all_goals exact .inl ⟨_, _, rfl, rfl, rfl, by decide, Nat.le_add_left _ _⟩

theorem punctuation?_at {cs : List Char} {kind : TokenKind} {n : Nat}
    (h : punctuation? cs = some (kind, n)) : PunctuationAt cs kind n := by
  obtain ⟨kind', n', hfound, hat⟩ | ⟨hnone, -⟩ := punctuation?_cases cs
  · cases hfound.symm.trans h
    exact hat
  · cases hnone.symm.trans h

theorem punctuation?_none {c : Char} {rest : List Char} (h : punctuation? (c :: rest) = none) :
    c ∉ punctuationHeads := by
  obtain ⟨kind, n, hfound, -⟩ | ⟨-, hheads⟩ := punctuation?_cases (c :: rest)
  · cases hfound.symm.trans h
  · exact hheads c rest rfl

theorem PunctuationAt.ne_eof {cs : List Char} {kind : TokenKind} {n : Nat}
    (h : PunctuationAt cs kind n) : kind ≠ .eof := by
  rintro rfl
  cases h.text

theorem punctuationOrUnmatched_takes (cs : List Char) : Takes (punctuationOrUnmatched cs) := by
  unfold punctuationOrUnmatched
  split
  · rename_i kind n h
    have hat := punctuation?_at h
    exact takes_token hat.ne_eof hat.pos
  · exact ⟨by simp, fun _ _ => nofun⟩

theorem scan_takes (c : Char) (rest : List Char) : Takes (scan c rest) := by
  unfold scan
  split
  · exact ⟨by simp, fun _ _ => nofun⟩
  · split
    · rename_i hdigit
      split
      · exact hexNumber_takes hdigit _ _
      · exact hexNumber_takes hdigit _ _
      · exact number_takes hdigit _
    · split
      · rename_i hstart
        exact word_takes hstart rest
      · split
        · exact ⟨by simp, fun _ _ => nofun⟩
        · exact ⟨by simp, fun _ _ => nofun⟩
        · exact ⟨Nat.le_add_right_of_le (by decide), fun _ _ => nofun⟩
        · exact ⟨by simp, fun _ _ => nofun⟩
        · exact literal_takes (by decide) _ _
        · exact literal_takes (by decide) _ _
        · exact verbatim_takes _
        · split
          · exact takes_token (by decide) (by simp)
          · exact ⟨by simp, fun _ _ => nofun⟩
        · split
          · exact takes_token (by decide) (by simp)
          · exact takes_token (by decide) (by simp)
        · exact punctuationOrUnmatched_takes _

end LexemeRule

theorem Lexeme.listFrom_cut (fuel offset : Nat) (cs : List Char) (h : cs.length ≤ fuel) :
    Span.Cut ((listFrom fuel offset cs).map (·.span)) offset cs ∧
      ∀ lexeme ∈ listFrom fuel offset cs, lexeme.kind ≠ .eof := by
  induction fuel generalizing offset cs with
  | zero =>
      rw [List.eq_nil_of_length_eq_zero (Nat.le_zero.mp h)]
      exact ⟨rfl, nofun⟩
  | succ fuel ih =>
      cases cs with
      | nil => exact ⟨rfl, nofun⟩
      | cons c rest =>
          obtain ⟨hn, hkind⟩ := LexemeRule.scan_takes c rest
          have hlength : ((c :: rest).drop (LexemeRule.scan c rest).2).length ≤ fuel := by
            rw [List.length_drop]
            omega
          obtain ⟨hcut, hkinds⟩ := ih _ _ hlength
          refine ⟨⟨_, _, (List.take_append_drop _ _).symm, rfl, hcut⟩, ?_⟩
          intro lexeme hmem
          rcases List.mem_cons.mp hmem with rfl | hmem
          · exact hkind _ _
          · exact hkinds lexeme hmem

theorem Lexeme.ofText_cut (text : String) :
    Span.Cut ((ofText text).map (·.span)) 0 text.toList ∧
      ∀ lexeme ∈ ofText text, lexeme.kind ≠ .eof :=
  listFrom_cut _ _ _ (Nat.le_of_eq String.length_toList)

namespace Lexer

theorem runSpan_of_cut {run : List Lexeme} {offset : Nat} {cs : List Char}
    (h : Span.Cut (run.map (·.span)) offset cs) :
    runSpan offset run = ⟨offset, offset + byteLength cs⟩ := by
  have hstop := h.last_stop
  rw [List.getLast?_map, Option.map_map] at hstop
  unfold runSpan
  rw [← hstop]
  rfl

theorem splitTrailing_append (lexemes : List Lexeme) :
    (splitTrailing lexemes).1 ++ (splitTrailing lexemes).2 = lexemes := by
  induction lexemes with
  | nil => rfl
  | cons lexeme rest ih =>
      unfold splitTrailing
      split
      · split
        · rfl
        · simpa using ih
      · rfl

theorem drain_succ (fuel : Nat) (lexer : Lexer) (tokens : TokenList) :
    lexer.drain (fuel + 1) tokens =
      if lexer.next.1.kind = .eof then ⟨tokens.push lexer.next.1, lexer.next.2.diagnostics⟩
      else lexer.next.2.drain fuel (tokens.push lexer.next.1) := rfl

end Lexer
end TolerantSyntax
