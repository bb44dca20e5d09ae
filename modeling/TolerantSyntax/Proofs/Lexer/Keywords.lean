import TolerantSyntax.Proofs.Lexer.Relexing

/-!
# Keywords have their texts

Of all lexical rules only that for words makes a keyword, and it looks at the text alone.  So
the text under a token whose kind is a keyword is the one that the keyword is spelled with.
-/

namespace TolerantSyntax

namespace LexemeRule

def makesKeyword : LexemeRule → Bool
  | token kind | unclosed kind => kind.isKeyword
  | _ => false

theorem literal_makesKeyword {kind : TokenKind} (hkind : kind.isKeyword = false) (quote : Char)
    (rest : List Char) : (literal kind quote rest).1.makesKeyword = false := by
  unfold literal
  simp only
  split <;> exact hkind

theorem verbatim_makesKeyword (rest : List Char) : (verbatim rest).1.makesKeyword = false := by
  unfold verbatim
  simp only
  split <;> rfl

theorem numeral_makesKeyword (cs : List Char) : (numeral cs).1.makesKeyword = false := by
  obtain ⟨kind, hrule, rfl | rfl⟩ := numeral_rule cs
  · rw [hrule]
    rfl
  · rw [hrule]
    rfl

theorem scan_makesKeyword {c : Char} {rest : List Char}
    (h : (scan c rest).1.makesKeyword = true) : scan c rest = word (c :: rest) := by
  have hscans := scan_scans c rest
  generalize scan c rest = scanned at hscans h ⊢
  cases hscans with
  | word hstart rest => rfl
  | whitespace | newline | mark | lineComment | blockComment | escaped | real | dot | unmatched =>
      cases h
  | numeral hdigit rest =>
      rw [numeral_makesKeyword] at h
      cases h
  | string rest | character rest =>
      rw [literal_makesKeyword rfl] at h
      cases h
  | verbatim behind =>
      rw [verbatim_makesKeyword] at h
      cases h
  | symbol hfound =>
      have hsymbol := (punctuation?_at hfound).symbol
      exact absurd h (by simp [makesKeyword, hsymbol])

theorem wordKind_keyword {text rest : List Char} (h : (wordKind text rest).isKeyword = true) :
    (wordKind text rest).fixedText? = some (String.ofList text) := by
  rcases wordKind_cases text rest with hkind | hfixed
  · rw [hkind] at h
    cases h
  · exact hfixed

end LexemeRule

theorem Lexeme.kind_isKeyword (lexeme : Lexeme) :
    lexeme.kind.isKeyword = lexeme.rule.makesKeyword := by
  unfold kind
  split <;> simp_all [LexemeRule.makesKeyword] <;> rfl

theorem Lexeme.text_of_keyword {source : String} {lexeme : Lexeme} (hmem : lexeme ∈ ofText source)
    (hkeyword : lexeme.kind.isKeyword = true) :
    lexeme.kind.fixedText? = some (String.ofList lexeme.text) := by
  obtain ⟨before, c, rest, -, hscanned⟩ := ofText_scanned hmem
  have hrule := hscanned.rule
  have htext := hscanned.text
  have hword : LexemeRule.scan c rest = LexemeRule.word (c :: rest) := by
    refine LexemeRule.scan_makesKeyword ?_
    rw [← hrule, ← kind_isKeyword, hkeyword]
  rw [hword] at hrule htext
  have hparts : lexeme.text = (c :: rest).takeWhile LexemeRule.isIdentifierPart := by
    rw [htext]
    exact LexemeRule.takeWhile_eq_take _ _
  have hkind : lexeme.kind = LexemeRule.wordKind lexeme.text
      ((c :: rest).dropWhile LexemeRule.isIdentifierPart) := by
    rw [kind, hrule, hparts]
    rfl
  rw [hkind] at hkeyword ⊢
  exact LexemeRule.wordKind_keyword hkeyword

theorem exists_made_of_mem_inner {source : String} {token : Token}
    (h : token ∈ (lex source).tokens.inner) :
    ∃ lexeme ∈ Lexeme.ofText source, lexeme.isTrivia = false ∧ Lexer.MadeOf token lexeme := by
  obtain ⟨index, hindex, rfl⟩ := List.mem_iff_getElem.mp h
  have hmade := inner_made source
  have hlexeme : index < (Lexeme.owned (Lexeme.ofText source)).length :=
    hmade.length_eq ▸ hindex
  obtain ⟨hmem, hown⟩ := List.mem_filter.mp (List.getElem_mem hlexeme)
  exact ⟨_, hmem, by simpa using hown, hmade.get hindex hlexeme⟩

theorem exists_made_of_mem_owned {source : String} {lexeme : Lexeme}
    (h : lexeme ∈ Lexeme.ofText source) (hown : lexeme.isTrivia = false) :
    ∃ token ∈ (lex source).tokens.inner, Lexer.MadeOf token lexeme := by
  have howned : lexeme ∈ Lexeme.owned (Lexeme.ofText source) :=
    List.mem_filter.mpr ⟨h, by simp [hown]⟩
  obtain ⟨index, hindex, rfl⟩ := List.mem_iff_getElem.mp howned
  have hmade := inner_made source
  have htoken : index < (lex source).tokens.inner.length := hmade.length_eq.symm ▸ hindex
  exact ⟨_, List.getElem_mem htoken, hmade.get htoken hindex⟩

theorem slice_of_keyword {source : String} {token : Token}
    (h : token ∈ (lex source).tokens.inner) (hkeyword : token.kind.isKeyword = true) :
    token.kind.fixedText? = some (token.span.slice source) := by
  obtain ⟨lexeme, hmem, -, hmade⟩ := exists_made_of_mem_inner h
  rw [hmade.kind] at hkeyword ⊢
  rw [hmade.span, Lexeme.slice_of_mem hmem]
  exact Lexeme.text_of_keyword hmem hkeyword

end TolerantSyntax
