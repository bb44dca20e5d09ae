import TolerantSyntax.Proofs.Lexer.Keywords
import TolerantSyntax.Proofs.Lexer.Scanning

/-!
# Kinds and texts agree

A kind with a fixed text stands at that text only.  An identifier is a name, and no fixed text; and
where a word is a keyword, it becomes the keyword.  Both have one exception: a keyword is given up
in front of a character that is no part of an identifier but has the first byte of one.
-/

namespace TolerantSyntax

open Lexeme (byteLength byteLength_append byteLength_pos byteLength_toList)
open LexemeRule (isIdentifierStart isIdentifierPart isWhitespace startsIdentifierPart)

namespace TokenKind

variable {kind : TokenKind} {fixed : String}

theorem keyword?_of_fixedText (hkeyword : kind.isKeyword = true)
    (hfixed : kind.fixedText? = some fixed) : keyword? fixed = some kind := by
  have hall : ∀ kind ∈ all, kind.isKeyword = true →
      kind.fixedText?.all (fun fixed => keyword? fixed == some kind) = true := by
    decide +kernel
  have hfound := hall kind kind.mem_all hkeyword
  rw [hfixed] at hfound
  exact eq_of_beq hfound

theorem fixedText_parts (hkeyword : kind.isKeyword = true) (hfixed : kind.fixedText? = some fixed) :
    ∀ c ∈ fixed.toList, isIdentifierPart c = true := by
  have hall : ∀ kind ∈ all, kind.isKeyword = true →
      kind.fixedText?.all (·.toList.all isIdentifierPart) = true := by
    decide +kernel
  have hparts := hall kind kind.mem_all hkeyword
  rw [hfixed] at hparts
  exact List.all_eq_true.mp hparts

theorem fixedText_signs (hsymbol : kind.isKeyword = false) (hfixed : kind.fixedText? = some fixed) :
    ∀ c ∈ fixed.toList, isIdentifierStart c = false ∧ c ≠ '@' := by
  have hall : ∀ kind ∈ all, kind.isKeyword = false →
      kind.fixedText?.all (·.toList.all fun c => !isIdentifierStart c && c != '@') = true := by
    decide +kernel
  have hsigns := hall kind kind.mem_all hsymbol
  rw [hfixed] at hsigns
  intro c hmem
  simpa using List.all_eq_true.mp hsigns c hmem

theorem isKeyword_of_name (hfixed : kind.fixedText? = some fixed) (hname : IsName fixed.toList) :
    kind.isKeyword = true := by
  rw [← Bool.not_eq_false]
  intro hsymbol
  have hsigns := fixedText_signs hsymbol hfixed
  rcases hname with ⟨c, rest, htext, hstart, -⟩ | ⟨word, htext, -⟩
  · obtain ⟨hplain, -⟩ := hsigns c (by simp [htext])
    rw [hstart] at hplain
    cases hplain
  · exact (hsigns '@' (by simp [htext])).2 rfl

theorem of_fixedText_eq_none (h : kind.fixedText? = none) :
    kind ∈ [identifier, intLiteral, realLiteral, stringLiteral, charLiteral, unknown, eof] := by
  cases kind <;> first | exact absurd h (by decide) | decide

end TokenKind

def ContextualKeyword.words : List (String × ContextualKeyword) :=
  [("async", .asyncWord), ("partial", .partialWord), ("get", .getWord), ("set", .setWord)]

theorem ContextualKeyword.ofText_eq_iff {text : String} :
    ∀ entry ∈ words, ofText text = entry.2 ↔ text = entry.1 := by
  unfold ofText
  split <;> simp_all [words]

/-- A character follows that is no part of an identifier but has the first byte of one. -/
def GivesUp (behind : List Char) : Prop :=
  ∃ d rest, behind = d :: rest ∧ startsIdentifierPart d = true ∧ isIdentifierPart d = false

/-- What the kind of a token says about its text. -/
structure Token.Spelled (source : String) (token : Token) : Prop where
  fixed : ∀ text, token.kind.fixedText? = some text → token.span.slice source = text
  name : token.kind = .identifier → IsName (token.span.slice source).toList
  unfixed : token.kind = .identifier → ∀ kind : TokenKind,
    kind.fixedText? = some (token.span.slice source) → kind.isKeyword = true ∧
      ∃ before behind, source.toList = before ++ (token.span.slice source).toList ++ behind ∧
        token.span.start = byteLength before ∧ GivesUp behind
  contextual : token.kind = .identifier → ∀ entry ∈ ContextualKeyword.words,
    token.contextual = entry.2 ↔ token.span.slice source = entry.1
  plain : token.kind ≠ .identifier → token.contextual = .none

theorem Lexeme.text_of_fixed {source : String} {lexeme : Lexeme} (hmem : lexeme ∈ ofText source)
    {fixed : String} (hfixed : lexeme.kind.fixedText? = some fixed) :
    String.ofList lexeme.text = fixed := by
  have hspells := spells hmem
  unfold kind at hfixed
  cases hrule : lexeme.rule with
  | token kind =>
      rw [hrule] at hspells hfixed
      rw [hspells.2.2 fixed hfixed, String.ofList_toList]
  | unclosed kind =>
      rw [hrule] at hspells hfixed
      rcases hspells with rfl | rfl <;> cases hfixed
  | whitespace | newline | lineComment | blockComment | byteOrderMark | unclosedVerbatim
  | unmatched =>
      rw [hrule] at hfixed
      cases hfixed

theorem Lexeme.spelled {source : String} {lexeme : Lexeme} {token : Token}
    (hmem : lexeme ∈ ofText source) (hmade : Lexer.MadeOf token lexeme) : token.Spelled source := by
  have hslice : token.span.slice source = String.ofList lexeme.text := by
    rw [hmade.span, slice_of_mem hmem]
  have hrule : token.kind = .identifier → lexeme.rule = .token .identifier := by
    rw [hmade.kind]
    exact (kind_eq_identifier hmem).mp
  have hname (hkind : token.kind = .identifier) : IsName lexeme.text := by
    have hspells := spells hmem
    rw [hrule hkind] at hspells
    exact hspells.2.1 rfl
  refine ⟨fun text hfixed => ?_, fun hkind => ?_, fun hkind kind hfixed => ?_,
    fun hkind entry hentry => ?_, fun hkind => ?_⟩
  · rw [hslice]
    exact text_of_fixed hmem (hmade.kind ▸ hfixed)
  · rw [hslice, String.toList_ofList]
    exact hname hkind
  · rw [hslice] at hfixed ⊢
    rw [String.toList_ofList, hmade.span]
    have hkeyword := TokenKind.isKeyword_of_name hfixed (by simpa using hname hkind)
    obtain ⟨before, d, behind, hsource, hstart, hfirst, hpart⟩ := identifier_keyword hmem
      (hrule hkind) (TokenKind.keyword?_of_fixedText hkeyword hfixed)
    exact ⟨hkeyword, before, d :: behind, hsource, hstart, d, behind, rfl, hfirst, hpart⟩
  · rw [hmade.contextual, Lexer.contextual, if_pos (hmade.kind ▸ hkind), hslice]
    exact ContextualKeyword.ofText_eq_iff entry hentry
  · rw [hmade.contextual, Lexer.contextual, if_neg (hmade.kind ▸ hkind)]

/-! ## Words of a text -/

/-- Parts of identifiers from a letter on, as many as there are, without an `@` in front. -/
structure WordAt (source : String) (before word behind : List Char) : Prop where
  text : source.toList = before ++ (word ++ behind)
  isWord : IsWord word
  front : ∀ c ∈ before.getLast?, isIdentifierPart c = false ∧ c ≠ '@'
  next : ∀ c ∈ behind.head?, isIdentifierPart c = false

/-- Whether a lexeme is a comment or a literal, closed or not. -/
def Lexeme.isLiteralOrComment (lexeme : Lexeme) : Bool :=
  match lexeme.rule with
  | .lineComment | .blockComment _ | .unclosed _ | .unclosedVerbatim => true
  | .token kind => [TokenKind.intLiteral, .realLiteral, .stringLiteral, .charLiteral].contains kind
  | _ => false

/-- No literal and no comment of a text goes over the offset. -/
def Outside (source : String) (offset : Nat) : Prop :=
  ∀ lexeme ∈ Lexeme.ofText source, lexeme.isLiteralOrComment = true →
    ¬(lexeme.span.start ≤ offset ∧ offset < lexeme.span.stop)

/-- The lexeme over an offset is cut there. -/
theorem Lexeme.cut_at {source : String} {lexeme : Lexeme} (hmem : lexeme ∈ ofText source)
    {before behind : List Char} (hsource : source.toList = before ++ behind)
    (hstart : lexeme.span.start ≤ byteLength before)
    (hstop : byteLength before < lexeme.span.stop) :
    ∃ front left right tail, before = front ++ left ∧ behind = right ++ tail ∧ right ≠ [] ∧
      lexeme.text = left ++ right ∧ lexeme.span.start = byteLength front := by
  obtain ⟨front, c, rest, heq, hscanned⟩ := ofText_scanned hmem
  rw [hscanned.span] at hstart hstop ⊢
  obtain ⟨left, rfl, hrest⟩ := append_cut (heq.symm.trans hsource) hstart
  rw [byteLength_append] at hstop
  have htake : lexeme.text ++ (c :: rest).drop (LexemeRule.scan c rest).2 = left ++ behind := by
    rw [hscanned.text, List.take_append_drop, hrest]
  obtain ⟨right, htext, hbehind⟩ := append_cut htake.symm (by simp only at hstop; omega)
  refine ⟨front, left, right, _, rfl, hbehind, ?_, htext, rfl⟩
  rintro rfl
  rw [htext, List.append_nil] at hstop
  exact Nat.lt_irrefl _ hstop

/-- Within a lexeme that is no literal and no comment, a letter stands behind parts of
identifiers and behind `@` only. -/
theorem Lexeme.before_letter {source : String} {lexeme : Lexeme} (hmem : lexeme ∈ ofText source)
    (hplain : lexeme.isLiteralOrComment = false) {front rest : List Char} {c letter : Char}
    (htext : lexeme.text = front ++ c :: letter :: rest)
    (hletter : isIdentifierStart letter = true) :
    isIdentifierPart c = true ∨ c = '@' := by
  have hspells := spells hmem
  have hc : c ∈ lexeme.text := by simp [htext]
  have hbehind : letter ∈ lexeme.text := by simp [htext]
  have hlength : lexeme.text.length ≠ 1 := by simp [htext]; omega
  unfold isLiteralOrComment at hplain
  cases hrule : lexeme.rule with
  | lineComment | blockComment closed | unclosed kind | unclosedVerbatim =>
      rw [hrule] at hplain
      cases hplain
  | whitespace =>
      rw [hrule] at hspells
      have hblank := hspells letter hbehind
      rw [LexemeRule.not_blank_of_start hletter] at hblank
      cases hblank
  | newline | byteOrderMark =>
      rw [hrule] at hspells
      exact absurd (congrArg List.length hspells) hlength
  | unmatched =>
      rw [hrule] at hspells
      exact absurd hspells hlength
  | token kind =>
      rw [hrule] at hspells hplain
      obtain ⟨hknown, hname, hfixed⟩ := hspells
      cases hkind : kind.fixedText? with
      | some fixed =>
          rw [hfixed fixed hkind] at hc hbehind
          cases hkeyword : kind.isKeyword with
          | true => exact .inl (TokenKind.fixedText_parts hkeyword hkind c hc)
          | false =>
              obtain ⟨hsign, -⟩ := TokenKind.fixedText_signs hkeyword hkind letter hbehind
              rw [hletter] at hsign
              cases hsign
      | none =>
          -- The literals are excluded, so that only a name is left.
          have hkinds := TokenKind.of_fixedText_eq_none hkind
          simp only [List.mem_cons, List.not_mem_nil, or_false] at hkinds
          rcases hkinds with rfl | rfl | rfl | rfl | rfl | rfl | rfl
          · rcases hname rfl with hword | ⟨word, hword, hletters⟩
            · exact .inl (hword.parts c hc)
            · rw [hword, List.mem_cons] at hc
              exact hc.symm.imp_left (hletters.parts c)
          · cases hplain
          · cases hplain
          · cases hplain
          · cases hplain
          · exact absurd rfl hknown
          · exact absurd (by rw [kind, hrule]) ((ofText_cut source).2 lexeme hmem)

theorem WordAt.starts {source : String} {before word behind : List Char}
    (h : WordAt source before word behind) (houtside : Outside source (byteLength before)) :
    ∃ lexeme ∈ Lexeme.ofText source, lexeme.span.start = byteLength before := by
  obtain ⟨letter, parts, hword, hletter, -⟩ := h.isWord
  have hplace : byteLength before < source.utf8ByteSize := by
    rw [← byteLength_toList, h.text, byteLength_append, byteLength_append]
    have hpos : 0 < byteLength word := byteLength_pos (by simp [hword])
    omega
  obtain ⟨lexeme, hmem, hstart, hstop⟩ := Lexeme.exists_at hplace
  obtain ⟨front, left, right, tail, rfl, hbehind, hright, htext, hspan⟩ :=
    Lexeme.cut_at hmem h.text hstart hstop
  refine ⟨lexeme, hmem, ?_⟩
  rcases List.eq_nil_or_concat left with rfl | ⟨inner, c, rfl⟩
  · rw [hspan, List.append_nil]
  · exfalso
    obtain ⟨hpart, hat⟩ := h.front c (by simp)
    have hplain : lexeme.isLiteralOrComment = false := by
      rw [← Bool.not_eq_true]
      exact fun hopen => houtside lexeme hmem hopen ⟨hstart, hstop⟩
    obtain ⟨first, others, rfl⟩ := List.exists_cons_of_ne_nil hright
    obtain ⟨rfl, -⟩ : letter = first ∧ parts ++ behind = others ++ tail := by
      simpa [hword] using hbehind
    rcases Lexeme.before_letter hmem hplain (by simpa using htext) hletter with hpart' | rfl
    · rw [hpart] at hpart'
      cases hpart'
    · exact hat rfl

/-- A word is a lexeme of its own, and its kind is decided by what follows it. -/
theorem WordAt.lexeme {source : String} {before word behind : List Char}
    (h : WordAt source before word behind) (houtside : Outside source (byteLength before)) :
    ∃ lexeme ∈ Lexeme.ofText source,
      lexeme.span = ⟨byteLength before, byteLength before + byteLength word⟩ ∧
        lexeme.rule = .token (LexemeRule.wordKind word behind) := by
  obtain ⟨lexeme, hmem, hstart⟩ := h.starts houtside
  obtain ⟨letter, parts, hword, hletter, -⟩ := h.isWord
  have hwhole : letter :: (parts ++ behind) = word ++ behind := by rw [hword, List.cons_append]
  have hstop : behind.takeWhile isIdentifierPart = [] := by
    cases hbehind : behind with
    | nil => rfl
    | cons c rest => exact List.takeWhile_cons_of_neg (by simp [h.next c (by simp [hbehind])])
  have hscan : LexemeRule.scan letter (parts ++ behind) =
      (.token (LexemeRule.wordKind word behind), word.length) := by
    rw [LexemeRule.scan_name (LexemeRule.not_blank_of_start hletter)
      (LexemeRule.not_digit_of_start hletter) hletter, hwhole]
    refine LexemeRule.word_eq ?_
    rw [LexemeRule.runLength, List.takeWhile_append_of_pos h.isWord.parts, hstop, List.append_nil]
  obtain ⟨hrule, htext, hspan⟩ := Lexeme.scannedAt hmem (hwhole ▸ h.text) hstart
  rw [hscan, hwhole, List.take_left] at htext
  exact ⟨lexeme, hmem, by rw [hspan, htext], by rw [hrule, hscan]⟩

theorem wordKind_of_keyword {word behind : List Char} {keyword : TokenKind}
    (hkeyword : TokenKind.keyword? (String.ofList word) = some keyword)
    (hnext : ∀ c ∈ behind.head?, isIdentifierPart c = false) :
    (¬GivesUp behind → LexemeRule.wordKind word behind = keyword) ∧
      (GivesUp behind → LexemeRule.wordKind word behind = .identifier) := by
  simp only [LexemeRule.wordKind, hkeyword]
  have hgives : GivesUp behind ↔ behind.head?.any startsIdentifierPart = true := by
    cases behind with
    | nil => simp [GivesUp]
    | cons d rest =>
        have hpart : isIdentifierPart d = false := hnext d rfl
        simp [GivesUp, hpart]
  simp only [hgives]
  exact ⟨fun h => if_neg h, fun h => if_pos h⟩

/-! ## All tokens -/

theorem Lexer.next_contextual (lexer : Lexer) (h : lexer.next.1.kind ≠ .identifier) :
    lexer.next.1.contextual = .none := by
  unfold next at h ⊢
  generalize lexer.pending.span (·.isTrivia) = runs at h ⊢
  obtain ⟨before, rest⟩ := runs
  cases rest with
  | nil =>
      simp only
      split <;> rfl
  | cons lexeme rest => exact if_neg h

theorem Lexer.mem_drain {fuel : Nat} {lexer : Lexer} {tokens : TokenList} {token : Token}
    (h : token ∈ (lexer.drain fuel tokens).tokens.tokens.toList) :
    token ∈ tokens.tokens.toList ∨ ∃ lexer : Lexer, lexer.next.1 = token := by
  induction fuel generalizing lexer tokens with
  | zero => exact .inl h
  | succ fuel ih =>
      have hpush : token ∈ (tokens.push lexer.next.1).tokens.toList →
          token ∈ tokens.tokens.toList ∨ ∃ lexer : Lexer, lexer.next.1 = token := by
        intro hmem
        simp only [TokenList.push, Array.toList_push, List.mem_append, List.mem_singleton] at hmem
        exact hmem.imp_right fun heq => ⟨lexer, heq.symm⟩
      rw [drain_succ] at h
      split at h
      · exact hpush h
      · rcases ih h with hmem | hcall
        · exact hpush hmem
        · exact .inr hcall

theorem lex_token_spelled (source : String) :
    ∀ token ∈ (lex source).tokens.tokens.toList, token.Spelled source := by
  intro token hmem
  have hplain : token.kind ≠ .identifier → token.contextual = .none := by
    rcases Lexer.mem_drain hmem with hnone | ⟨lexer, rfl⟩
    · cases hnone
    · exact lexer.next_contextual
  obtain ⟨front, last, htokens, -, hfront, hlast, -⟩ := lex_made source
  have hinner := TokenList.inner_eq htokens (fun token hmem => (hfront token hmem).1) hlast
  rw [htokens, List.mem_append, List.mem_singleton] at hmem
  rcases hmem with hmem | rfl
  · obtain ⟨lexeme, hlexeme, -, hmade⟩ := exists_made_of_mem_inner (hinner ▸ hmem)
    exact Lexeme.spelled hlexeme hmade
  · have hname : token.kind ≠ .identifier := by simp [hlast]
    refine ⟨fun text hfixed => ?_, fun hkind => absurd hkind hname,
      fun hkind => absurd hkind hname, fun hkind => absurd hkind hname, hplain⟩
    rw [hlast] at hfixed
    cases hfixed

/-- Kinds and texts agree for every token, and a word that is the text of a keyword becomes the
keyword, unless the first byte of what follows makes the lexer give the keyword up.  Then it is an
identifier. -/
theorem lex_spelled (source : String) :
    (∀ token ∈ (lex source).tokens.tokens.toList, token.Spelled source) ∧
      ∀ before word behind, WordAt source before word behind →
        Outside source (byteLength before) → ∀ keyword : TokenKind, keyword.isKeyword = true →
          keyword.fixedText? = some (String.ofList word) →
            ∃ token ∈ (lex source).tokens.inner,
              token.span = ⟨byteLength before, byteLength before + byteLength word⟩ ∧
                (¬GivesUp behind → token.kind = keyword) ∧
                (GivesUp behind → token.kind = .identifier) := by
  refine ⟨lex_token_spelled source, ?_⟩
  intro before word behind hword houtside keyword hkeyword hfixed
  obtain ⟨lexeme, hmem, hspan, hrule⟩ := hword.lexeme houtside
  obtain ⟨token, htoken, hmade⟩ := exists_made_of_mem_owned hmem (by rw [Lexeme.isTrivia, hrule])
  have hkind : token.kind = LexemeRule.wordKind word behind := by
    rw [hmade.kind, Lexeme.kind, hrule]
  refine ⟨token, htoken, hmade.span.trans hspan, ?_⟩
  rw [hkind]
  exact wordKind_of_keyword (TokenKind.keyword?_of_fixedText hkeyword hfixed) hword.next

theorem lex_spelled_space :
    ∃ token ∈ (lex "int x").tokens.inner, token.span = ⟨0, 3⟩ ∧ token.kind = .intKw := by
  have hparts : ['n', 't'].all isIdentifierPart = true := by decide +kernel
  have hnext : isIdentifierPart ' ' = false := by decide
  have hword : WordAt "int x" [] ['i', 'n', 't'] [' ', 'x'] :=
    ⟨rfl, ⟨'i', ['n', 't'], rfl, by decide, List.all_eq_true.mp hparts⟩, by simp,
      by simpa using hnext⟩
  have houtside : Outside "int x" (byteLength []) := by
    unfold Outside
    decide +kernel
  obtain ⟨token, hmem, hspan, hkind, -⟩ :=
    (lex_spelled "int x").2 _ _ _ hword houtside .intKw rfl rfl
  refine ⟨token, hmem, hspan, hkind ?_⟩
  rintro ⟨d, rest, hbehind, hfirst, -⟩
  obtain ⟨rfl, -⟩ := List.cons.inj hbehind
  exact absurd hfirst (by decide)

theorem lex_spelled_int :
    ∃ token ∈ (lex "int€").tokens.inner, token.kind = .identifier ∧
      TokenKind.intKw.fixedText? = some (token.span.slice "int€") := by
  decide +kernel

end TolerantSyntax
