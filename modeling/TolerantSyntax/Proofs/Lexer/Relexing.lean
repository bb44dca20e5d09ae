import TolerantSyntax.Proofs.Lexer.Scanning
import TolerantSyntax.Proofs.Sentence

/-!
# Lexing tokens again

The texts of the tokens of a text, each written on a line of its own, are lexed to the same
tokens: what stood around a token had no part in what it is.  The one exception is a keyword
that was given up at a first byte of a letter.  On a line of its own it is the keyword.
-/

namespace TolerantSyntax

namespace LexemeRule

/-- Texts, each behind a newline. -/
def lines (texts : List (List Char)) : List Char := texts.flatMap ('\n' :: ·)

theorem lines_cons (text : List Char) (texts : List (List Char)) :
    lines (text :: texts) = '\n' :: (text ++ lines texts) := rfl

theorem lines_cases (texts : List (List Char)) :
    lines texts = [] ∨ ∃ behind, lines texts = '\n' :: behind := by
  cases texts with
  | nil => exact .inl rfl
  | cons text texts => exact .inr ⟨_, rfl⟩

theorem breaks_lines (texts : List (List Char)) : Breaks (lines texts) := by
  rcases lines_cases texts with h | ⟨behind, h⟩
  · rw [h]
    exact .nil
  · rw [h]
    exact .newline behind

structure Told (c : Char) (rest : List Char) (scanned : LexemeRule × Nat) : Prop where
  unclosed : ∀ kind, scanned.1 = .unclosed kind → kind ≠ .identifier
  verbatim : scanned.1 = .unclosedVerbatim → scanned.2 = rest.length + 1
  identifier : scanned.1 = .token .identifier → c = '@' ∨ scanned = word (c :: rest)

theorem told_token {kind : TokenKind} (hkind : kind ≠ .identifier) (c : Char) (rest : List Char)
    (n : Nat) : Told c rest (.token kind, n) :=
  ⟨nofun, nofun, fun heq => absurd (LexemeRule.token.inj heq) hkind⟩

theorem told_literal {kind : TokenKind} (hkind : kind ≠ .identifier) (c quote : Char)
    (rest : List Char) : Told c rest (literal kind quote rest) := by
  unfold literal
  simp only
  split
  · exact told_token hkind _ _ _
  · refine ⟨fun kind' heq => ?_, nofun, nofun⟩
    cases heq
    exact hkind

theorem told_verbatim (c : Char) (behind : List Char) :
    Told c ('"' :: behind) (verbatim behind) := by
  unfold verbatim
  simp only
  split
  · exact told_token (by decide) _ _ _
  · rename_i hclosed
    have hwhole := verbatimBody_unclosed (Bool.eq_false_iff.mpr hclosed)
    exact ⟨nofun, fun _ => congrArg (· + 2) hwhole, nofun⟩

theorem scan_told (c : Char) (rest : List Char) : Told c rest (scan c rest) := by
  have hscans := scan_scans c rest
  generalize scan c rest = scanned at hscans ⊢
  cases hscans with
  | whitespace | newline | mark | lineComment | blockComment | unmatched =>
      exact ⟨nofun, nofun, nofun⟩
  | numeral hdigit rest =>
      obtain ⟨kind, hkind, hliteral⟩ := numeral_rule (c :: rest)
      rw [← Prod.mk.eta (p := numeral _), hkind]
      exact told_token (by rcases hliteral with rfl | rfl <;> decide) _ _ _
  | word hstart rest => exact ⟨nofun, nofun, fun _ => .inr rfl⟩
  | string rest => exact told_literal (by decide) _ _ _
  | character rest => exact told_literal (by decide) _ _ _
  | verbatim behind => exact told_verbatim _ _
  | escaped hstart => exact ⟨nofun, nofun, fun _ => .inl rfl⟩
  | real hdigit => exact told_token (by decide) _ _ _
  | dot rest => exact told_token (by decide) _ _ _
  | symbol hfound =>
      have htext := (punctuation?_at hfound).text
      refine told_token ?_ _ _ _
      rintro rfl
      cases htext

theorem exists_scan_text (c : Char) (rest : List Char) :
    ∃ text behind, rest = text ++ behind ∧ (scan c rest).2 = text.length + 1 := by
  obtain ⟨hpos, -⟩ := scan_takes c rest
  have hle := scan_le c rest
  refine ⟨rest.take ((scan c rest).2 - 1), rest.drop ((scan c rest).2 - 1),
    (List.take_append_drop _ _).symm, ?_⟩
  rw [List.length_take]
  omega

end LexemeRule

namespace Lexeme

open LexemeRule (lines lines_cons scan)

structure Settles (lexeme again : Lexeme) : Prop where
  rule : again.rule = lexeme.rule.settle lexeme.text
  text : again.text = lexeme.text

theorem stopsAt_lines {lexeme : Lexeme} {texts : List (List Char)}
    (hown : lexeme.isTrivia = false) (hlast : lexeme.rule = .unclosedVerbatim → texts = []) :
    lexeme.rule.StopsAt (lines texts) := by
  unfold isTrivia at hown
  cases hrule : lexeme.rule with
  | token | byteOrderMark | unmatched => exact LexemeRule.breaks_lines texts
  | unclosed kind => exact LexemeRule.lines_cases texts
  | unclosedVerbatim =>
      rw [hlast hrule]
      rfl
  | whitespace | newline | lineComment | blockComment => simp [hrule] at hown

theorem settle_token_rule (kind : TokenKind) (text : List Char) :
    ∃ kind', (LexemeRule.token kind).settle text = .token kind' := by
  unfold LexemeRule.settle
  split <;> exact ⟨_, rfl⟩

theorem Settles.isTrivia {lexeme again : Lexeme} (h : Settles lexeme again)
    (hown : lexeme.isTrivia = false) (hstart : 0 < again.span.start) : again.isTrivia = false := by
  have hrule' := h.rule
  unfold Lexeme.isTrivia at hown ⊢
  cases hrule : lexeme.rule with
  | token kind =>
      obtain ⟨kind', hkind⟩ := settle_token_rule kind lexeme.text
      rw [hrule', hrule, hkind]
  | byteOrderMark =>
      rw [hrule', hrule]
      simpa [LexemeRule.settle] using Nat.ne_of_gt hstart
  | unmatched | unclosed | unclosedVerbatim =>
      rw [hrule', hrule]
      rfl
  | whitespace | newline | lineComment | blockComment => simp [hrule] at hown

def owned (lexemes : List Lexeme) : List Lexeme := lexemes.filter fun lexeme => !lexeme.isTrivia

theorem owned_cons_of_trivia {lexeme : Lexeme} (h : lexeme.isTrivia = true)
    (lexemes : List Lexeme) : owned (lexeme :: lexemes) = owned lexemes :=
  List.filter_cons_of_neg (by simp [h])

theorem owned_cons_of_own {lexeme : Lexeme} (h : lexeme.isTrivia = false)
    (lexemes : List Lexeme) : owned (lexeme :: lexemes) = lexeme :: owned lexemes :=
  List.filter_cons_of_pos (by simp [h])

theorem listFrom_nil (fuel offset : Nat) : listFrom fuel offset [] = [] := by
  cases fuel <;> rfl

theorem listFrom_line {c : Char} {text behind : List Char} {rule : LexemeRule} (fuel offset : Nat)
    (h : scan c (text ++ behind) = (rule, text.length + 1)) :
    listFrom (fuel + 2) offset ('\n' :: c :: (text ++ behind)) =
      ⟨.newline, ⟨offset, offset + 1⟩, ['\n']⟩ ::
        ⟨rule, ⟨offset + 1, offset + 1 + byteLength (c :: text)⟩, c :: text⟩ ::
          listFrom fuel (offset + 1 + byteLength (c :: text)) behind := by
  rw [listFrom_cons, LexemeRule.scan_newline]
  simp only [List.take_succ_cons, List.take_zero, List.drop_succ_cons, List.drop_zero]
  rw [listFrom_cons, h]
  simp only [List.take_succ_cons, List.take_left, List.drop_succ_cons, List.drop_left]
  rfl

/-- The lexemes that are no trivia, written on lines of their own, are scanned again. -/
theorem listFrom_settles (fuel offset : Nat) (cs : List Char) (fuel' offset' : Nat)
    (hfuel : (lines ((owned (listFrom fuel offset cs)).map (·.text))).length ≤ fuel') :
    List.Forall₂ Settles (owned (listFrom fuel offset cs))
      (owned (listFrom fuel' offset'
        (lines ((owned (listFrom fuel offset cs)).map (·.text))))) := by
  induction fuel generalizing offset cs fuel' offset' with
  | zero =>
      change List.Forall₂ Settles [] (owned (listFrom fuel' offset' []))
      rw [listFrom_nil]
      exact .nil
  | succ fuel ih =>
      cases cs with
      | nil =>
          change List.Forall₂ Settles [] (owned (listFrom fuel' offset' []))
          rw [listFrom_nil]
          exact .nil
      | cons c rest =>
          obtain ⟨text, behind, rfl, hlength⟩ := LexemeRule.exists_scan_text c rest
          rw [listFrom_cons] at hfuel ⊢
          simp only [hlength, List.take_succ_cons, List.take_left, List.drop_succ_cons,
            List.drop_left] at hfuel ⊢
          generalize offset + byteLength (c :: text) = stop at hfuel ⊢
          cases htrivia : (Lexeme.mk (scan c (text ++ behind)).1 ⟨offset, stop⟩
              (c :: text)).isTrivia with
          | true =>
              rw [owned_cons_of_trivia htrivia] at hfuel ⊢
              exact ih stop behind fuel' offset' hfuel
          | false =>
              rw [owned_cons_of_own htrivia] at hfuel ⊢
              rw [List.map_cons, lines_cons] at hfuel ⊢
              obtain ⟨fuel', rfl⟩ : ∃ fuel'', fuel' = fuel'' + 2 := by
                refine ⟨fuel' - 2, ?_⟩
                simp only [List.length_cons, List.length_append] at hfuel
                omega
              have hlast : (scan c (text ++ behind)).1 = .unclosedVerbatim →
                  (owned (listFrom fuel stop behind)).map (·.text) = [] := by
                intro hrule
                have hwhole := (LexemeRule.scan_told c (text ++ behind)).verbatim hrule
                rw [hlength, List.length_append] at hwhole
                obtain rfl : behind = [] := List.eq_nil_of_length_eq_zero (by omega)
                rw [listFrom_nil]
                rfl
              have hscan := LexemeRule.scan_before_break
                (Prod.ext rfl hlength) (stopsAt_lines htrivia hlast)
              have hsettles (stop' : Nat) :
                  Settles ⟨(scan c (text ++ behind)).1, ⟨offset, stop⟩, c :: text⟩
                    ⟨(scan c (text ++ behind)).1.settle (c :: text), ⟨offset' + 1, stop'⟩,
                      c :: text⟩ := ⟨rfl, rfl⟩
              rw [List.cons_append, listFrom_line _ _ hscan, owned_cons_of_trivia rfl,
                owned_cons_of_own ((hsettles _).isTrivia htrivia (Nat.succ_pos offset'))]
              refine .cons (hsettles _) (ih _ _ _ _ ?_)
              simp only [List.length_cons, List.length_append] at hfuel
              omega

theorem slice_of_mem {source : String} {lexeme : Lexeme} (h : lexeme ∈ ofText source) :
    lexeme.span.slice source = String.ofList lexeme.text := by
  obtain ⟨before, c, rest, heq, hscanned⟩ := ofText_scanned h
  have hsource : source = String.ofList
      (before ++ lexeme.text ++ (c :: rest).drop (scan c rest).2) := by
    rw [hscanned.text, List.append_assoc, List.take_append_drop, ← heq, String.ofList_toList]
  rw [hscanned.span, hsource, Span.slice_of_append]

theorem kind_eq_identifier {source : String} {lexeme : Lexeme} (h : lexeme ∈ ofText source) :
    lexeme.kind = .identifier ↔ lexeme.rule = .token .identifier := by
  obtain ⟨before, c, rest, -, hscanned⟩ := ofText_scanned h
  have hopen := (LexemeRule.scan_told c rest).unclosed
  rw [← hscanned.rule] at hopen
  unfold kind
  cases hrule : lexeme.rule with
  | token kind => simp
  | unclosed kind => simpa using hopen kind hrule
  | whitespace | newline | lineComment | blockComment | byteOrderMark | unclosedVerbatim
  | unmatched => simp

end Lexeme

/-! ## Tokens -/

structure Spelling where
  kind : TokenKind
  contextual : ContextualKeyword
  text : String
deriving DecidableEq, Repr

/-- What becomes of a token on a line of its own. -/
def Spelling.settle (spelling : Spelling) : Spelling :=
  { spelling with
    kind := if spelling.kind = .identifier then
        (TokenKind.keyword? spelling.text).getD .identifier
      else spelling.kind }

def Lexeme.spelling (lexeme : Lexeme) : Spelling :=
  ⟨lexeme.kind, Lexer.contextual lexeme, String.ofList lexeme.text⟩

def Token.spelling (source : String) (token : Token) : Spelling :=
  ⟨token.kind, token.contextual, token.span.slice source⟩

theorem ContextualKeyword.ofText_keyword {text : String} {keyword : TokenKind}
    (h : TokenKind.keyword? text = some keyword) : ofText text = .none := by
  have hnone : ∀ word ∈ ["async", "partial", "get", "set"],
      TokenKind.keyword? word = Option.none := by
    decide
  unfold ofText
  split
  · exact absurd (h.symm.trans (hnone _ (by simp))) nofun
  · exact absurd (h.symm.trans (hnone _ (by simp))) nofun
  · exact absurd (h.symm.trans (hnone _ (by simp))) nofun
  · exact absurd (h.symm.trans (hnone _ (by simp))) nofun
  · rfl

theorem Lexeme.Settles.spelling {lexeme again : Lexeme} (h : Settles lexeme again)
    (hkind : lexeme.kind = .identifier ↔ lexeme.rule = .token .identifier) :
    again.spelling = lexeme.spelling.settle := by
  by_cases hname : lexeme.kind = .identifier
  · have hagain : again.kind =
        (TokenKind.keyword? (String.ofList lexeme.text)).getD .identifier := by
      rw [kind, h.rule, LexemeRule.settle, if_pos (hkind.mp hname)]
    simp only [Lexeme.spelling, Spelling.settle, Lexer.contextual, h.text, hagain, if_pos hname]
    cases hkeyword : TokenKind.keyword? (String.ofList lexeme.text) with
    | none => simp
    | some keyword => simp [ContextualKeyword.ofText_keyword hkeyword]
  · have hrule : again.rule = lexeme.rule := by
      rw [h.rule, LexemeRule.settle, if_neg fun hrule => hname (hkind.mpr hrule)]
    have hagain : again.kind = lexeme.kind := by
      rw [kind, kind, hrule]
    simp only [Lexeme.spelling, Spelling.settle, Lexer.contextual, h.text, hagain, if_neg hname]

theorem inner_made (source : String) :
    List.Forall₂ Lexer.MadeOf (lex source).tokens.inner (Lexeme.owned (Lexeme.ofText source)) := by
  obtain ⟨front, last, htokens, hmade, hfront, hlast, -⟩ := lex_made source
  rw [TokenList.inner_eq htokens (fun token hmem => (hfront token hmem).1) hlast]
  exact hmade

theorem inner_spelling (source : String) :
    (lex source).tokens.inner.map (·.spelling source) =
      (Lexeme.owned (Lexeme.ofText source)).map (·.spelling) := by
  have hmade := inner_made source
  have hmem : ∀ lexeme ∈ Lexeme.owned (Lexeme.ofText source), lexeme ∈ Lexeme.ofText source :=
    fun lexeme hmem => List.mem_of_mem_filter hmem
  generalize (lex source).tokens.inner = tokens at hmade ⊢
  generalize Lexeme.owned (Lexeme.ofText source) = lexemes at hmade hmem ⊢
  induction hmade with
  | nil => rfl
  | @cons token lexeme tokens lexemes hof hmade ih =>
      obtain ⟨hlexeme, hlexemes⟩ := List.forall_mem_cons.mp hmem
      have hspelling : token.spelling source = lexeme.spelling := by
        rw [Token.spelling, Lexeme.spelling, hof.kind, hof.contextual, hof.span,
          Lexeme.slice_of_mem hlexeme]
      rw [List.map_cons, List.map_cons, hspelling, ih hlexemes]

/-- The texts of the tokens of a text, each behind a newline. -/
def relined (source : String) : String :=
  String.join ((lex source).tokens.inner.map fun token => "\n" ++ token.span.slice source)

theorem toList_relined (source : String) :
    (relined source).toList =
      LexemeRule.lines ((Lexeme.owned (Lexeme.ofText source)).map (·.text)) := by
  have htexts := congrArg (List.map fun spelling : Spelling => '\n' :: spelling.text.toList)
    (inner_spelling source)
  simp only [List.map_map] at htexts
  unfold relined LexemeRule.lines
  rw [String.join_eq, String.toList_ofList, List.map_map, List.flatMap_map, List.flatMap_def]
  refine congrArg List.flatten (Eq.trans ?_ (htexts.trans ?_))
  · simp [Token.spelling, Function.comp_def]
  · simp [Lexeme.spelling, Function.comp_def]

theorem Lexeme.settles_spelling {lexemes again : List Lexeme}
    (h : List.Forall₂ Settles lexemes again)
    (hkind : ∀ lexeme ∈ lexemes, lexeme.kind = .identifier ↔ lexeme.rule = .token .identifier) :
    again.map (·.spelling) = lexemes.map (·.spelling.settle) := by
  induction h with
  | nil => rfl
  | cons hsettles _ ih =>
      obtain ⟨hlexeme, hlexemes⟩ := List.forall_mem_cons.mp hkind
      rw [List.map_cons, List.map_cons, hsettles.spelling hlexeme, ih hlexemes]

theorem ofText_relined (source : String) :
    List.Forall₂ Lexeme.Settles (Lexeme.owned (Lexeme.ofText source))
      (Lexeme.owned (Lexeme.ofText (relined source))) := by
  have hlines := toList_relined source
  have hof (text : String) : Lexeme.ofText text = Lexeme.listFrom text.length 0 text.toList := rfl
  rw [hof (relined source), hlines]
  rw [hof source] at hlines ⊢
  refine Lexeme.listFrom_settles _ _ _ _ _ ?_
  rw [← hlines]
  exact Nat.le_of_eq String.length_toList

theorem lex_relined_spelling (source : String) :
    (lex (relined source)).tokens.inner.map (·.spelling (relined source)) =
      (lex source).tokens.inner.map fun token => (token.spelling source).settle := by
  have hagain := Lexeme.settles_spelling (ofText_relined source)
    fun lexeme hmem => Lexeme.kind_eq_identifier (List.mem_of_mem_filter hmem)
  have hspelling := congrArg (List.map (·.settle)) (inner_spelling source)
  rw [List.map_map, List.map_map] at hspelling
  rw [inner_spelling]
  exact hagain.trans hspelling.symm

theorem TokenKind.keyword?_ne_identifier {text : String} :
    TokenKind.keyword? text ≠ some .identifier := by
  intro h
  have htext := List.find?_some h
  simp [TokenKind.fixedText?] at htext

/-- An identifier with the text of a keyword stands in front of a character that is no part of
an identifier but has the first byte of one. -/
theorem Lexeme.identifier_keyword {source : String} {lexeme : Lexeme}
    (hmem : lexeme ∈ ofText source) (hrule : lexeme.rule = .token .identifier)
    {keyword : TokenKind}
    (hkeyword : TokenKind.keyword? (String.ofList lexeme.text) = some keyword) :
    ∃ before d behind, source.toList = before ++ lexeme.text ++ d :: behind ∧
      lexeme.span.start = byteLength before ∧
      LexemeRule.startsIdentifierPart d = true ∧ LexemeRule.isIdentifierPart d = false := by
  obtain ⟨before, c, rest, hsource, hscanned⟩ := ofText_scanned hmem
  rw [hscanned.rule] at hrule
  have htext := hscanned.text
  rcases (LexemeRule.scan_told c rest).identifier hrule with rfl | hword
  · obtain ⟨text, behind, rfl, hlength⟩ := LexemeRule.exists_scan_text '@' rest
    rw [hlength, List.take_succ_cons] at htext
    rw [htext, LexemeRule.keyword?_at] at hkeyword
    cases hkeyword
  · rw [hword] at hrule htext
    have hparts : lexeme.text = (c :: rest).takeWhile LexemeRule.isIdentifierPart := by
      rw [htext]
      exact LexemeRule.takeWhile_eq_take _ _
    have hkind : LexemeRule.wordKind lexeme.text
        ((c :: rest).dropWhile LexemeRule.isIdentifierPart) = .identifier := by
      rw [hparts]
      exact LexemeRule.token.inj hrule
    have hwhole := List.takeWhile_append_dropWhile (p := LexemeRule.isIdentifierPart)
      (l := c :: rest)
    cases hbehind : (c :: rest).dropWhile LexemeRule.isIdentifierPart with
    | nil =>
        rw [hbehind, LexemeRule.wordKind, hkeyword] at hkind
        exact absurd (hkeyword.trans (congrArg some hkind)) TokenKind.keyword?_ne_identifier
    | cons d behind =>
        refine ⟨before, d, behind, ?_, ?_, ?_, ?_⟩
        · rw [hsource, ← hwhole, hparts, hbehind, List.append_assoc]
        · rw [hscanned.span]
        · rw [hbehind, LexemeRule.wordKind, hkeyword] at hkind
          simp only at hkind
          split at hkind
          · rename_i hstart
            exact hstart
          · exact absurd (hkeyword.trans (congrArg some hkind)) TokenKind.keyword?_ne_identifier
        · have hhead := List.head?_dropWhile_not LexemeRule.isIdentifierPart (c :: rest)
          rw [hbehind] at hhead
          simpa using hhead

theorem Spelling.settle_kind {spelling : Spelling} :
    spelling.settle.kind = spelling.kind ↔
      (spelling.kind = .identifier → TokenKind.keyword? spelling.text = none) := by
  unfold settle
  by_cases hname : spelling.kind = .identifier
  · simp only [if_pos hname]
    cases hkeyword : TokenKind.keyword? spelling.text with
    | none => simp [hname]
    | some keyword =>
        have hne : keyword ≠ .identifier := by
          rintro rfl
          exact TokenKind.keyword?_ne_identifier hkeyword
        simp [hname, hne]
  · simp [hname]

/-- Lexing the tokens of a text again, each on a line of its own, gives a token for each and
the end of file, with the same texts and contextual keywords.  They have the same kinds exactly
when no identifier of the text has the text of a keyword. -/
theorem lex_relined (source : String) :
    (∃ last, (lex (relined source)).tokens.tokens.toList =
        (lex (relined source)).tokens.inner ++ [last] ∧ last.kind = .eof) ∧
      (lex (relined source)).tokens.inner.map (·.span.slice (relined source)) =
        (lex source).tokens.inner.map (·.span.slice source) ∧
      (lex (relined source)).tokens.inner.map (·.contextual) =
        (lex source).tokens.inner.map (·.contextual) ∧
      ((lex (relined source)).tokens.inner.map (·.kind) =
          (lex source).tokens.inner.map (·.kind) ↔
        ∀ token ∈ (lex source).tokens.inner, token.kind = .identifier →
          TokenKind.keyword? (token.span.slice source) = none) := by
  have hspelling := lex_relined_spelling source
  obtain ⟨front, last, htokens, -, hfront, hlast, -⟩ := lex_made (relined source)
  have hinner := TokenList.inner_eq htokens (fun token hmem => (hfront token hmem).1) hlast
  refine ⟨⟨last, by rw [hinner, htokens], hlast⟩, ?_, ?_, ?_⟩
  · have htexts := congrArg (List.map (·.text)) hspelling
    rw [List.map_map, List.map_map] at htexts
    exact htexts
  · have hcontextual := congrArg (List.map (·.contextual)) hspelling
    rw [List.map_map, List.map_map] at hcontextual
    exact hcontextual
  · have hkinds := congrArg (List.map (·.kind)) hspelling
    rw [List.map_map, List.map_map] at hkinds
    rw [show (lex (relined source)).tokens.inner.map (·.kind) = _ from hkinds, List.map_inj_left]
    exact forall₂_congr fun token hmem => Spelling.settle_kind

theorem lex_relined_int :
    relined "int€" = "\nint\n€" ∧
      (lex "int€").tokens.inner.map (·.kind) = [.identifier, .unknown] ∧
      (lex (relined "int€")).tokens.inner.map (·.kind) = [.intKw, .unknown] := by
  decide +kernel

end TolerantSyntax
