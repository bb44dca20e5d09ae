import TolerantSyntax.Proofs.Lexer.Attachment
import TolerantSyntax.Proofs.Lexer.Break

/-!
# What each rule takes

The rule for a lexeme is chosen by its first characters.  `Scans` has one case for each rule, so
that a fact about all lexemes is one case analysis.  The text of a lexeme is then described by its
rule alone: a kind with a fixed text has that text, an identifier is a name, and a line feed stands
in newlines and comments only.
-/

namespace TolerantSyntax

def IsWord (text : List Char) : Prop :=
  ∃ c rest, text = c :: rest ∧ LexemeRule.isIdentifierStart c = true ∧
    ∀ d ∈ rest, LexemeRule.isIdentifierPart d = true

def IsName (text : List Char) : Prop := IsWord text ∨ ∃ word, text = '@' :: word ∧ IsWord word

theorem LexemeRule.isIdentifierPart_of_start {c : Char} (h : isIdentifierStart c = true) :
    isIdentifierPart c = true := by
  simp [isIdentifierPart, h]

theorem IsWord.parts {text : List Char} (h : IsWord text) :
    ∀ c ∈ text, LexemeRule.isIdentifierPart c = true := by
  obtain ⟨c, rest, rfl, hstart, hrest⟩ := h
  exact List.forall_mem_cons.mpr ⟨LexemeRule.isIdentifierPart_of_start hstart, hrest⟩

namespace LexemeRule

variable {c : Char} {rest : List Char}

theorem not_blank_of_start {c : Char} (h : isIdentifierStart c = true) :
    isWhitespace c = false := by
  rw [← Bool.not_eq_true]
  intro hblank
  simp only [isWhitespace, Bool.or_eq_true, beq_iff_eq] at hblank
  rcases hblank with (((rfl | rfl) | rfl) | rfl) | rfl <;> exact absurd h (by decide)

theorem not_digit_of_start {c : Char} (h : isIdentifierStart c = true) : c.isDigit = false := by
  rw [← Bool.not_eq_true]
  intro hdigit
  have hrange : 48 ≤ c.toNat ∧ c.toNat ≤ 57 := by
    simpa [Char.isDigit, UInt32.le_iff_toNat_le] using hdigit
  simp only [isIdentifierStart, isLetter, Bool.or_eq_true, beq_iff_eq] at h
  rcases h with rfl | hletter
  · exact absurd hdigit (by decide)
  · rw [if_pos (by omega)] at hletter
    rcases Bool.or_eq_true_iff.mp hletter with hupper | hlower
    · have hfrom : 65 ≤ c.toNat := (of_decide_eq_true hupper).1
      omega
    · have hfrom : 97 ≤ c.toNat := of_decide_eq_true (Bool.and_eq_true_iff.mp hlower).1
      omega

theorem isWord_takeWhile (h : isIdentifierStart c = true) (rest : List Char) :
    IsWord ((c :: rest).takeWhile isIdentifierPart) := by
  rw [List.takeWhile_cons_of_pos (isIdentifierPart_of_start h)]
  exact ⟨c, _, rfl, h, fun d hmem => List.mem_takeWhile_imp hmem⟩

/-- The rules by the characters that a text goes on with, and what they give. -/
inductive Scans : Char → List Char → LexemeRule × Nat → Prop where
  | whitespace {c : Char} (hblank : isWhitespace c = true) (rest : List Char) :
      Scans c rest (.whitespace, 1 + runLength isWhitespace rest)
  | numeral {c : Char} (hdigit : c.isDigit = true) (rest : List Char) :
      Scans c rest (numeral (c :: rest))
  | word {c : Char} (hstart : isIdentifierStart c = true) (rest : List Char) :
      Scans c rest (word (c :: rest))
  | newline (rest : List Char) : Scans '\n' rest (.newline, 1)
  | mark (rest : List Char) : Scans '\ufeff' rest (.byteOrderMark, 1)
  | lineComment (behind : List Char) :
      Scans '/' ('/' :: behind) (.lineComment, 2 + runLength (· != '\n') behind)
  | blockComment (behind : List Char) :
      Scans '/' ('*' :: behind) (.blockComment (commentBody behind).2, (commentBody behind).1 + 2)
  | string (rest : List Char) : Scans '"' rest (literal .stringLiteral '"' rest)
  | character (rest : List Char) : Scans '\'' rest (literal .charLiteral '\'' rest)
  | verbatim (behind : List Char) : Scans '@' ('"' :: behind) (verbatim behind)
  | escaped {rest : List Char} (hstart : startsIdentifier rest = true) :
      Scans '@' rest (.token .identifier, 1 + runLength isIdentifierPart rest)
  | real {rest : List Char} (hdigit : startsWithDigit rest = true) :
      Scans '.' rest (.token .realLiteral, 1 + fraction rest)
  | dot (rest : List Char) : Scans '.' rest (.token .dot, 1)
  | symbol {c : Char} {rest : List Char} {kind : TokenKind} {n : Nat}
      (hfound : punctuation? (c :: rest) = some (kind, n)) : Scans c rest (.token kind, n)
  | unmatched (c : Char) (rest : List Char) : Scans c rest (.unmatched, 1)

theorem scan_scans (c : Char) (rest : List Char) : Scans c rest (scan c rest) := by
  cases hblank : isWhitespace c with
  | true =>
      unfold scan
      rw [if_pos hblank]
      exact .whitespace hblank rest
  | false =>
  cases hdigit : c.isDigit with
  | true =>
      rw [scan_digit hblank hdigit]
      exact .numeral hdigit rest
  | false =>
  cases hstart : isIdentifierStart c with
  | true =>
      rw [scan_name hblank hdigit hstart]
      exact .word hstart rest
  | false =>
      unfold scan
      rw [if_neg (by simp [hblank]), if_neg (by simp [hdigit]), if_neg (by simp [hstart])]
      split
      · exact .newline _
      · exact .mark _
      · exact .lineComment _
      · exact .blockComment _
      · exact .string _
      · exact .character _
      · exact .verbatim _
      · split
        · rename_i hname
          exact .escaped hname
        · exact .unmatched _ _
      · split
        · rename_i hreal
          exact .real hreal
        · exact .dot _
      · unfold punctuationOrUnmatched
        split
        · rename_i hfound
          exact .symbol hfound
        · exact .unmatched _ _

/-- What the rule of a lexeme says about its text. -/
def Spells : LexemeRule → List Char → Prop
  | whitespace, text => ∀ c ∈ text, isWhitespace c = true
  | newline, text => text = ['\n']
  | lineComment, text => '\n' ∉ text
  | byteOrderMark, text => text = ['\ufeff']
  | token kind, text => kind ≠ .unknown ∧ (kind = .identifier → IsName text) ∧
      ∀ fixed, kind.fixedText? = some fixed → text = fixed.toList
  | unclosed kind, _ => kind = .stringLiteral ∨ kind = .charLiteral
  | unmatched, text => text.length = 1
  | blockComment _, _ | unclosedVerbatim, _ => True

theorem spells_fixed {kind : TokenKind} {text : List Char}
    (h : kind.fixedText? = some (String.ofList text)) : (token kind).Spells text := by
  refine ⟨?_, ?_, fun fixed hfixed => ?_⟩
  · rintro rfl
    cases h
  · rintro rfl
    cases h
  · obtain rfl := Option.some.inj (h.symm.trans hfixed)
    exact String.toList_ofList.symm

theorem spells_name {text : List Char} (h : IsName text) : (token .identifier).Spells text :=
  ⟨nofun, fun _ => h, nofun⟩

theorem spells_literal {kind : TokenKind} {text : List Char}
    (h : kind ∈ [TokenKind.intLiteral, .realLiteral, .stringLiteral, .charLiteral]) :
    (token kind).Spells text := by
  simp only [List.mem_cons, List.not_mem_nil, or_false] at h
  rcases h with rfl | rfl | rfl | rfl <;> exact ⟨nofun, nofun, nofun⟩

theorem takeWhile_eq_take (p : Char → Bool) (cs : List Char) :
    cs.take (runLength p cs) = cs.takeWhile p :=
  (List.prefix_iff_eq_take.mp (List.takeWhile_prefix p)).symm

theorem word_spells (hstart : isIdentifierStart c = true) (rest : List Char) :
    (word (c :: rest)).1.Spells ((c :: rest).take (word (c :: rest)).2) := by
  have htext : (c :: rest).take (word (c :: rest)).2 = (c :: rest).takeWhile isIdentifierPart :=
    takeWhile_eq_take _ _
  have hname := isWord_takeWhile hstart rest
  rw [htext]
  simp only [word]
  rcases wordKind_cases ((c :: rest).takeWhile isIdentifierPart)
    ((c :: rest).dropWhile isIdentifierPart) with hkind | hfixed
  · rw [hkind]
    exact spells_name (.inl hname)
  · exact spells_fixed hfixed

theorem numeral_spells (cs text : List Char) : (numeral cs).1.Spells text := by
  obtain ⟨kind, hrule, rfl | rfl⟩ := numeral_rule cs
  · rw [hrule]
    exact spells_literal (by simp)
  · rw [hrule]
    exact spells_literal (by simp)

theorem literal_spells {kind : TokenKind} (hkind : kind = .stringLiteral ∨ kind = .charLiteral)
    (quote : Char) (rest text : List Char) : (literal kind quote rest).1.Spells text := by
  simp only [literal]
  split
  · exact spells_literal (by simpa using .inr (.inr hkind))
  · exact hkind

theorem scan_spells (c : Char) (rest : List Char) :
    (scan c rest).1.Spells ((c :: rest).take (scan c rest).2) := by
  have hscans := scan_scans c rest
  generalize scan c rest = scanned at hscans ⊢
  cases hscans with
  | whitespace hblank rest =>
      intro d hmem
      rw [Nat.add_comm, List.take_succ_cons, takeWhile_eq_take] at hmem
      rcases List.mem_cons.mp hmem with rfl | hmem
      · exact hblank
      · exact List.mem_takeWhile_imp hmem
  | numeral hdigit rest => exact numeral_spells _ _
  | word hstart rest => exact word_spells hstart rest
  | newline rest => rfl
  | mark rest => rfl
  | lineComment behind =>
      have hrest : '\n' ∉ behind.takeWhile (· != '\n') := fun hmem => by
        simpa using List.mem_takeWhile_imp hmem
      simpa [Spells, Nat.add_comm 2, takeWhile_eq_take] using hrest
  | blockComment behind => trivial
  | string rest => exact literal_spells (.inl rfl) _ _ _
  | character rest => exact literal_spells (.inr rfl) _ _ _
  | verbatim behind =>
      simp only [LexemeRule.verbatim]
      split
      · exact spells_literal (by simp)
      · trivial
  | escaped hstart =>
      refine spells_name (.inr ⟨rest.takeWhile isIdentifierPart, ?_, ?_⟩)
      · rw [Nat.add_comm, List.take_succ_cons, takeWhile_eq_take]
      · cases rest with
        | nil => cases hstart
        | cons d rest => exact isWord_takeWhile hstart rest
  | real hdigit => exact spells_literal (by simp)
  | dot rest => exact spells_fixed rfl
  | symbol hfound => exact spells_fixed (punctuation?_at hfound).text
  | unmatched c rest => rfl

end LexemeRule

open Lexeme (byteLength byteLength_append byteLength_pos)

theorem Lexeme.eq_nil_of_byteLength {cs : List Char} (h : byteLength cs = 0) : cs = [] := by
  by_contra hne
  exact Nat.ne_of_gt (byteLength_pos hne) h

theorem Lexeme.append_cut {left left' right right' : List Char}
    (h : left ++ right = left' ++ right') (hle : byteLength left ≤ byteLength left') :
    ∃ middle, left' = left ++ middle ∧ right = middle ++ right' := by
  rcases List.append_eq_append_iff.mp h with hcut | ⟨middle, rfl, rfl⟩
  · exact hcut
  · rw [byteLength_append] at hle
    obtain rfl : middle = [] := eq_nil_of_byteLength (by omega)
    exact ⟨[], by simp, rfl⟩

theorem Lexeme.append_inj_of_byteLength {left left' right right' : List Char}
    (h : left ++ right = left' ++ right') (hlength : byteLength left = byteLength left') :
    left = left' ∧ right = right' := by
  obtain ⟨middle, rfl, rfl⟩ := append_cut h (Nat.le_of_eq hlength)
  rw [byteLength_append] at hlength
  obtain rfl : middle = [] := eq_nil_of_byteLength (by omega)
  simp

theorem Span.Cut.covers {spans : List Span} {offset : Nat} {cs : List Char}
    (h : Cut spans offset cs) {place : Nat} (hstart : offset ≤ place)
    (hstop : place < offset + byteLength cs) :
    ∃ span ∈ spans, span.start ≤ place ∧ place < span.stop := by
  induction spans generalizing offset cs with
  | nil =>
      obtain rfl : cs = [] := h
      exact absurd hstop (Nat.not_lt.mpr hstart)
  | cons span rest ih =>
      obtain ⟨text, behind, rfl, rfl, hrest⟩ := h
      rw [byteLength_append] at hstop
      by_cases hplace : place < offset + byteLength text
      · exact ⟨_, List.mem_cons_self .., hstart, hplace⟩
      · obtain ⟨span, hmem, hspan⟩ := ih hrest (by simpa using hplace) (by simp only; omega)
        exact ⟨span, List.mem_cons_of_mem _ hmem, hspan⟩

namespace Lexeme

variable {source : String} {lexeme other : Lexeme}

theorem spells (h : lexeme ∈ ofText source) : lexeme.rule.Spells lexeme.text := by
  obtain ⟨before, c, rest, -, hscanned⟩ := ofText_scanned h
  rw [hscanned.rule, hscanned.text]
  exact LexemeRule.scan_spells c rest

theorem exists_at {place : Nat} (h : place < source.utf8ByteSize) :
    ∃ lexeme ∈ ofText source, lexeme.span.start ≤ place ∧ place < lexeme.span.stop := by
  rw [← byteLength_toList, ← Nat.zero_add (byteLength _)] at h
  obtain ⟨span, hmem, hspan⟩ := (ofText_cut source).1.covers (Nat.zero_le place) h
  obtain ⟨lexeme, hlexeme, rfl⟩ := List.mem_map.mp hmem
  exact ⟨lexeme, hlexeme, hspan⟩

theorem apart (hlexeme : lexeme ∈ ofText source) (hother : other ∈ ofText source) :
    lexeme = other ∨ lexeme.span.stop ≤ other.span.start ∨
      other.span.stop ≤ lexeme.span.start := by
  have hordered := List.pairwise_map.mp (ofText_cut source).1.ordered
  obtain ⟨left, right, heq⟩ := List.append_of_mem hlexeme
  rw [heq, List.pairwise_append, List.pairwise_cons] at hordered
  obtain ⟨-, ⟨hright, -⟩, hleft⟩ := hordered
  rw [heq, List.mem_append, List.mem_cons] at hother
  rcases hother with hother | rfl | hother
  · exact .inr (.inr (hleft other hother lexeme (List.mem_cons_self ..)))
  · exact .inl rfl
  · exact .inr (.inl (hright other hother))

/-- The lexeme that starts at an offset is what is scanned there. -/
theorem scannedAt {before rest : List Char} {c : Char} (hmem : lexeme ∈ ofText source)
    (hsource : source.toList = before ++ c :: rest)
    (hstart : lexeme.span.start = byteLength before) :
    lexeme.ScannedAt (byteLength before) c rest := by
  obtain ⟨front, d, behind, heq, hscanned⟩ := ofText_scanned hmem
  rw [hscanned.span] at hstart
  obtain ⟨rfl, hbehind⟩ := append_inj_of_byteLength (hsource.symm.trans heq) hstart.symm
  obtain ⟨rfl, rfl⟩ := List.cons.inj hbehind
  exact hscanned

end Lexeme
end TolerantSyntax
