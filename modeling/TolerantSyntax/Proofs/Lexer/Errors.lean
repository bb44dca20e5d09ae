import TolerantSyntax.Proofs.Lexer.Keywords

/-!
# Lexical errors are reported exactly

What is wrong with a lexeme can be told from its kind and its text: it is a character that no
rule takes, a literal without its closing quote, or a comment without its end mark.  The lexer
looks at the rules instead.  Each rule describes its texts, and so the two agree.
-/

namespace TolerantSyntax

/-- Characters, and backslashes each with the character that it takes.  What stands behind them
is not escaped. -/
inductive Escaped : List Char → Prop where
  | nil : Escaped []
  | plain {c : Char} {rest : List Char} (hc : c ≠ '\\') (hrest : Escaped rest) :
      Escaped (c :: rest)
  | pair (c : Char) {rest : List Char} (hrest : Escaped rest) : Escaped ('\\' :: c :: rest)

/-- The quote stands in the text and is not escaped there. -/
def HasQuote (quote : Char) (text : List Char) : Prop :=
  ∃ front behind, text = front ++ quote :: behind ∧ Escaped front

/-- Characters, and quotes in pairs. -/
inductive Doubled : List Char → Prop where
  | nil : Doubled []
  | plain {c : Char} {rest : List Char} (hc : c ≠ '"') (hrest : Doubled rest) : Doubled (c :: rest)
  | pair {rest : List Char} (hrest : Doubled rest) : Doubled ('"' :: '"' :: rest)

/-- The text of a verbatim string ends with a quote that belongs to no pair. -/
def ClosesVerbatim (text : List Char) : Prop :=
  ∃ front, text = front ++ ['"'] ∧ Doubled front

/-- A block comment whose end mark is not in the text. -/
def OpensComment (text : List Char) : Prop :=
  ∃ body, text = '/' :: '*' :: body ∧ ¬['*', '/'] <:+: body

section Texts

variable {quote c : Char} {rest : List Char}

theorem hasQuote_quote (quote : Char) (rest : List Char) : HasQuote quote (quote :: rest) :=
  ⟨[], rest, rfl, .nil⟩

theorem not_hasQuote_nil (quote : Char) : ¬HasQuote quote [] := by
  rintro ⟨front, behind, htext, -⟩
  simp at htext

theorem hasQuote_plain (hquote : c ≠ quote) (hc : c ≠ '\\') :
    HasQuote quote (c :: rest) ↔ HasQuote quote rest := by
  constructor
  · rintro ⟨front, behind, htext, hfront⟩
    cases hfront with
    | nil => exact absurd (List.cons.inj htext).1 hquote
    | plain _ hfront => exact ⟨_, behind, (List.cons.inj htext).2, hfront⟩
    | pair d hfront => exact absurd (List.cons.inj htext).1 hc
  · rintro ⟨front, behind, rfl, hfront⟩
    exact ⟨c :: front, behind, rfl, .plain hc hfront⟩

theorem hasQuote_pair (hquote : '\\' ≠ quote) :
    HasQuote quote ('\\' :: c :: rest) ↔ HasQuote quote rest := by
  constructor
  · rintro ⟨front, behind, htext, hfront⟩
    cases hfront with
    | nil => exact absurd (List.cons.inj htext).1 hquote
    | plain hd _ => exact absurd (List.cons.inj htext).1.symm hd
    | pair d hfront =>
        exact ⟨_, behind, (List.cons.inj (List.cons.inj htext).2).2, hfront⟩
  · rintro ⟨front, behind, rfl, hfront⟩
    exact ⟨'\\' :: c :: front, behind, rfl, .pair c hfront⟩

theorem not_closesVerbatim_nil : ¬ClosesVerbatim [] := by
  rintro ⟨front, htext, -⟩
  simp at htext

theorem closesVerbatim_quote : ClosesVerbatim ['"'] := ⟨[], rfl, .nil⟩

theorem closesVerbatim_plain (hc : c ≠ '"') :
    ClosesVerbatim (c :: rest) ↔ ClosesVerbatim rest := by
  constructor
  · rintro ⟨front, htext, hfront⟩
    cases hfront with
    | nil => exact absurd (List.cons.inj htext).1 hc
    | plain _ hfront => exact ⟨_, (List.cons.inj htext).2, hfront⟩
    | pair hfront => exact absurd (List.cons.inj htext).1 hc
  · rintro ⟨front, rfl, hfront⟩
    exact ⟨c :: front, rfl, .plain hc hfront⟩

theorem closesVerbatim_pair : ClosesVerbatim ('"' :: '"' :: rest) ↔ ClosesVerbatim rest := by
  constructor
  · rintro ⟨front, htext, hfront⟩
    cases hfront with
    | nil => simp at htext
    | plain hd _ => exact absurd (List.cons.inj htext).1.symm hd
    | pair hfront => exact ⟨_, (List.cons.inj (List.cons.inj htext).2).2, hfront⟩
  · rintro ⟨front, rfl, hfront⟩
    exact ⟨'"' :: '"' :: front, rfl, .pair hfront⟩

end Texts

namespace LexemeRule

theorem literalBody_closes {quote : Char} (hquote : '\\' ≠ quote) (cs : List Char) :
    (literalBody quote cs).2 = true ↔ HasQuote quote (cs.take (literalBody quote cs).1) := by
  fun_induction literalBody quote cs with
  | case1 => simp [not_hasQuote_nil]
  | case2 rest => simp [hasQuote_quote]
  | case3 | case4 | case5 => simp [not_hasQuote_nil]
  | case6 c rest _ n closed hbody _ _ ih =>
      rw [hbody] at ih
      rw [List.take_succ_cons, List.take_succ_cons, hasQuote_pair hquote]
      exact ih
  | case7 c rest hne _ hslash n closed hbody ih =>
      rw [hbody] at ih
      rw [List.take_succ_cons, hasQuote_plain hne hslash]
      exact ih

theorem verbatimBody_closes (cs : List Char) :
    (verbatimBody cs).2 = true ↔ ClosesVerbatim (cs.take (verbatimBody cs).1) := by
  fun_induction verbatimBody cs with
  | case1 rest n closed hbody ih =>
      rw [hbody] at ih
      rw [List.take_succ_cons, List.take_succ_cons, closesVerbatim_pair]
      exact ih
  | case2 rest hsingle => simp [closesVerbatim_quote]
  | case3 c rest hpair hquote n closed hbody ih =>
      rw [hbody] at ih
      rw [List.take_succ_cons, closesVerbatim_plain (fun hc => hquote hc)]
      exact ih
  | case4 => simp [not_closesVerbatim_nil]

theorem commentBody_closes (cs : List Char) :
    (commentBody cs).2 = true ↔ ['*', '/'] <:+: cs.take (commentBody cs).1 := by
  fun_induction commentBody cs with
  | case1 rest => simp
  | case2 c rest hmark n closed hbody ih =>
      have hfront : ¬['*', '/'] <+: c :: rest.take n := by
        rw [List.cons_prefix_cons]
        rintro ⟨rfl, behind, hbehind⟩
        have hrest := List.take_append_drop n rest
        rw [← hbehind] at hrest
        exact hmark _ rfl hrest.symm
      rw [hbody] at ih
      rw [List.take_succ_cons, List.infix_cons_iff, or_iff_right hfront]
      exact ih
  | case3 => simp

theorem commentBody_open {cs : List Char} (h : (commentBody cs).2 = false) :
    (commentBody cs).1 = cs.length := by
  fun_induction commentBody cs <;> simp_all

/-! ## What rules say about texts -/

def mayFail (kind : TokenKind) : Bool :=
  kind == .unknown || kind == .stringLiteral || kind == .charLiteral

/-- What can be told from the rule of a lexeme of its text and of the text behind it. -/
def Describes : LexemeRule → List Char → List Char → Prop
  | whitespace, text, _ | newline, text, _ | lineComment, text, _ => ¬['/', '*'] <+: text
  | blockComment closed, text, behind => (closed = false → behind = []) ∧
      ∃ body, text = '/' :: '*' :: body ∧ (closed = true ↔ ['*', '/'] <:+: body)
  | byteOrderMark, text, _ => text = ['\ufeff']
  | token kind, text, _ => mayFail kind = true → kind ≠ .unknown ∧
      ((∃ quote body, (quote = '"' ∨ quote = '\'') ∧ text = quote :: body ∧ HasQuote quote body) ∨
        ∃ body, text = '@' :: '"' :: body ∧ ClosesVerbatim body)
  | unclosed kind, text, _ => (kind = .stringLiteral ∨ kind = .charLiteral) ∧
      ∃ quote body, (quote = '"' ∨ quote = '\'') ∧ text = quote :: body ∧ ¬HasQuote quote body
  | unclosedVerbatim, text, behind => behind = [] ∧
      ∃ body, text = '@' :: '"' :: body ∧ ¬ClosesVerbatim body
  | unmatched, _, _ => True

section Rules

variable {text behind : List Char}

theorem describes_of_fixed {kind : TokenKind} {fixed : String} (h : kind.fixedText? = some fixed) :
    (token kind).Describes text behind := by
  intro hfail
  have hkind : (kind = .unknown ∨ kind = .stringLiteral) ∨ kind = .charLiteral := by
    simpa [mayFail] using hfail
  rcases hkind with (rfl | rfl) | rfl <;> cases h

theorem numeral_describes (cs : List Char) : (numeral cs).1.Describes text behind := by
  obtain ⟨kind, hrule, rfl | rfl⟩ := numeral_rule cs
  · rw [hrule]
    exact nofun
  · rw [hrule]
    exact nofun

theorem wordKind_describes (word rest : List Char) :
    (token (wordKind word rest)).Describes text behind := by
  rcases wordKind_cases word rest with hkind | hfixed
  · rw [hkind]
    exact nofun
  · exact describes_of_fixed hfixed

theorem literal_describes {kind : TokenKind} {quote : Char}
    (hkind : kind = .stringLiteral ∨ kind = .charLiteral) (hquote : quote = '"' ∨ quote = '\'')
    (rest : List Char) : (literal kind quote rest).1.Describes
      ((quote :: rest).take (literal kind quote rest).2) behind := by
  have hslash : '\\' ≠ quote := by rcases hquote with rfl | rfl <;> decide
  have hcloses := literalBody_closes hslash rest
  unfold literal
  simp only [List.take_succ_cons]
  cases hclosed : (literalBody quote rest).2 with
  | true =>
      refine fun _ => ⟨?_, .inl ⟨quote, _, hquote, rfl, hcloses.mp hclosed⟩⟩
      rcases hkind with rfl | rfl <;> decide
  | false =>
      refine ⟨hkind, quote, _, hquote, rfl, fun hquoted => ?_⟩
      exact absurd (hcloses.mpr hquoted) (by simp [hclosed])

theorem verbatim_describes (rest : List Char) :
    (verbatim rest).1.Describes (('@' :: '"' :: rest).take (verbatim rest).2)
      (('@' :: '"' :: rest).drop (verbatim rest).2) := by
  have hcloses := verbatimBody_closes rest
  unfold verbatim
  simp only [List.take_succ_cons, List.drop_succ_cons]
  cases hclosed : (verbatimBody rest).2 with
  | true => exact fun _ => ⟨by decide, .inr ⟨_, rfl, hcloses.mp hclosed⟩⟩
  | false =>
      refine ⟨?_, _, rfl, fun hends => absurd (hcloses.mpr hends) (by simp [hclosed])⟩
      rw [verbatimBody_unclosed hclosed, List.drop_length]

theorem comment_describes (rest : List Char) :
    (blockComment (commentBody rest).2).Describes ('/' :: '*' :: rest.take (commentBody rest).1)
      (rest.drop (commentBody rest).1) := by
  refine ⟨fun hopen => ?_, _, rfl, commentBody_closes rest⟩
  rw [commentBody_open hopen, List.drop_length]

end Rules

/-- Every rule describes the texts that it takes. -/
theorem scan_describes (c : Char) (rest : List Char) :
    (scan c rest).1.Describes ((c :: rest).take (scan c rest).2)
      ((c :: rest).drop (scan c rest).2) := by
  have hscans := scan_scans c rest
  generalize scan c rest = scanned at hscans ⊢
  cases hscans with
  | whitespace hblank rest =>
      rw [Nat.add_comm]
      simp only [List.take_succ_cons, Describes, List.cons_prefix_cons]
      rintro ⟨rfl, -⟩
      cases hblank
  | numeral hdigit rest => exact numeral_describes _
  | word hstart rest => exact wordKind_describes _ _
  | newline rest => simp [Describes]
  | mark rest => rfl
  | lineComment behind => simp [Describes, Nat.add_comm 2]
  | blockComment behind => exact comment_describes _
  | string rest => exact literal_describes (.inl rfl) (.inl rfl) _
  | character rest => exact literal_describes (.inr rfl) (.inr rfl) _
  | verbatim behind => exact verbatim_describes _
  | escaped | real | dot => exact nofun
  | symbol hfound => exact describes_of_fixed (punctuation?_at hfound).text
  | unmatched => trivial

end LexemeRule

/-! ## Faults -/

/-- The lexical errors of a token, by its kind, its span and its text. -/
inductive LexicalFault (kind : TokenKind) (span : Span) (text : List Char) : Diagnostic → Prop where
  | unexpected (hkind : kind = .unknown) :
      LexicalFault kind span text (.error .unexpectedCharacter span [String.ofList text])
  | literal {quote : Char} {body : List Char}
      (hkind : kind = .stringLiteral ∨ kind = .charLiteral) (hquote : quote = '"' ∨ quote = '\'')
      (htext : text = quote :: body) (hopen : ¬HasQuote quote body) :
      LexicalFault kind span text (.error .newlineInConst span [])
  | verbatim {body : List Char} (hkind : kind = .stringLiteral)
      (htext : text = '@' :: '"' :: body) (hopen : ¬ClosesVerbatim body) :
      LexicalFault kind span text (.error .unterminatedStringLit span [])

namespace LexicalFault

variable {kind : TokenKind} {span : Span} {text : List Char} {diagnostic : Diagnostic}

theorem iff_unexpected (hkind : kind = .unknown) :
    LexicalFault kind span text diagnostic ↔
      diagnostic = .error .unexpectedCharacter span [String.ofList text] := by
  constructor
  · intro h
    cases h with
    | unexpected => rfl
    | literal hliteral => rcases hliteral with rfl | rfl <;> cases hkind
    | verbatim hstring =>
        subst hstring
        cases hkind
  · rintro rfl
    exact .unexpected hkind

theorem iff_literal {quote : Char} {body : List Char}
    (hkind : kind = .stringLiteral ∨ kind = .charLiteral) (hquote : quote = '"' ∨ quote = '\'')
    (htext : text = quote :: body) (hopen : ¬HasQuote quote body) :
    LexicalFault kind span text diagnostic ↔ diagnostic = .error .newlineInConst span [] := by
  constructor
  · intro h
    cases h with
    | unexpected hunknown =>
        subst hunknown
        rcases hkind with hkind | hkind <;> cases hkind
    | literal => rfl
    | verbatim _ hat =>
        obtain rfl : quote = '@' := (List.cons.inj (htext.symm.trans hat)).1
        rcases hquote with hquote | hquote <;> cases hquote
  · rintro rfl
    exact .literal hkind hquote htext hopen

theorem iff_verbatim {body : List Char} (hkind : kind = .stringLiteral)
    (htext : text = '@' :: '"' :: body) (hopen : ¬ClosesVerbatim body) :
    LexicalFault kind span text diagnostic ↔
      diagnostic = .error .unterminatedStringLit span [] := by
  constructor
  · intro h
    cases h with
    | unexpected hunknown =>
        subst hunknown
        cases hkind
    | @literal quote _ _ hquote hat =>
        obtain rfl : quote = '@' := (List.cons.inj (hat.symm.trans htext)).1
        rcases hquote with hquote | hquote <;> cases hquote
    | verbatim => rfl
  · rintro rfl
    exact .verbatim hkind htext hopen

theorem not_of_describes {behind : List Char}
    (h : (LexemeRule.token kind).Describes text behind) :
    ¬LexicalFault kind span text diagnostic := by
  intro hfault
  cases hfault with
  | unexpected hkind =>
      subst hkind
      exact (h rfl).1 rfl
  | @literal quote body hkind hquote htext hopen =>
      have hfail : LexemeRule.mayFail kind = true := by rcases hkind with rfl | rfl <;> rfl
      obtain ⟨-, ⟨other, body', -, hother, hclosed⟩ | ⟨body', hat, -⟩⟩ := h hfail
      · obtain ⟨rfl, rfl⟩ := List.cons.inj (hother.symm.trans htext)
        exact hopen hclosed
      · obtain rfl := (List.cons.inj (hat.symm.trans htext)).1
        rcases hquote with hquote | hquote <;> cases hquote
  | @verbatim body hkind htext hopen =>
      subst hkind
      obtain ⟨-, ⟨quote, body', hquote, hother, -⟩ | ⟨body', hat, hclosed⟩⟩ := h rfl
      · obtain rfl := (List.cons.inj (hother.symm.trans htext)).1
        rcases hquote with hquote | hquote <;> cases hquote
      · obtain rfl := (List.cons.inj (List.cons.inj (hat.symm.trans htext)).2).2
        exact hopen hclosed

end LexicalFault

namespace Lexeme

theorem describes {source : String} {lexeme : Lexeme} (h : lexeme ∈ ofText source) :
    ∃ before behind, source.toList = before ++ lexeme.text ++ behind ∧
      lexeme.span = ⟨byteLength before, byteLength before + byteLength lexeme.text⟩ ∧
      lexeme.rule.Describes lexeme.text behind := by
  obtain ⟨before, c, rest, hsource, hscanned⟩ := ofText_scanned h
  have hdescribes := LexemeRule.scan_describes c rest
  rw [← hscanned.rule, ← hscanned.text] at hdescribes
  refine ⟨before, _, ?_, hscanned.span, hdescribes⟩
  rw [hsource, hscanned.text, List.append_assoc, List.take_append_drop]

section Faults

variable {lexeme : Lexeme} {behind : List Char} {diagnostic : Diagnostic}
  (hdescribes : lexeme.rule.Describes lexeme.text behind)
include hdescribes

theorem diagnostic?_of_own (hown : lexeme.isTrivia = false) :
    lexeme.diagnostic? = some diagnostic ↔
      LexicalFault lexeme.kind lexeme.span lexeme.text diagnostic := by
  obtain ⟨rule, span, text⟩ := lexeme
  have hsame (other : Diagnostic) : some other = some diagnostic ↔ diagnostic = other := by
    rw [Option.some.injEq, eq_comm]
  cases rule with
  | whitespace | newline | lineComment | blockComment => cases hown
  | byteOrderMark =>
      rw [diagnostic?, if_neg (by simp [hown])]
      exact (hsame _).trans (LexicalFault.iff_unexpected rfl).symm
  | unmatched => exact (hsame _).trans (LexicalFault.iff_unexpected rfl).symm
  | unclosed kind =>
      obtain ⟨hkind, quote, body, hquote, htext, hopen⟩ := hdescribes
      exact (hsame _).trans (LexicalFault.iff_literal hkind hquote htext hopen).symm
  | unclosedVerbatim =>
      obtain ⟨-, body, htext, hopen⟩ := hdescribes
      exact (hsame _).trans (LexicalFault.iff_verbatim rfl htext hopen).symm
  | token kind =>
      exact ⟨nofun, fun hfault => absurd hfault (LexicalFault.not_of_describes hdescribes)⟩

theorem diagnostic?_of_trivia (htrivia : lexeme.isTrivia = true) :
    lexeme.diagnostic? = some diagnostic ↔
      OpensComment lexeme.text ∧ diagnostic = .error .openEndedComment lexeme.span [] := by
  obtain ⟨rule, span, text⟩ := lexeme
  have hnone (hfront : ¬['/', '*'] <+: text) :
      (none : Option Diagnostic) = some diagnostic ↔
        OpensComment text ∧ diagnostic = .error .openEndedComment span [] := by
    constructor
    · exact nofun
    · rintro ⟨⟨body, rfl, -⟩, -⟩
      exact absurd ⟨body, rfl⟩ hfront
  cases rule with
  | token | unclosed | unclosedVerbatim | unmatched => cases htrivia
  | whitespace | newline | lineComment => exact hnone hdescribes
  | byteOrderMark =>
      rw [diagnostic?, if_pos htrivia]
      refine hnone ?_
      rw [show text = ['\ufeff'] from hdescribes]
      decide
  | blockComment closed =>
      obtain ⟨-, body, hbody, hclosed⟩ := hdescribes
      obtain rfl : text = '/' :: '*' :: body := hbody
      have hopens : OpensComment ('/' :: '*' :: body) ↔ closed = false := by
        rw [← Bool.not_eq_true, hclosed]
        refine ⟨?_, fun hopen => ⟨body, rfl, hopen⟩⟩
        rintro ⟨other, hother, hopen⟩
        obtain rfl := (List.cons.inj (List.cons.inj hother).2).2
        exact hopen
      rw [hopens]
      cases closed <;> simp [diagnostic?, eq_comm]

theorem behind_of_unended (h : lexeme.diagnostic? = some diagnostic)
    (hcode : diagnostic.code = .unterminatedStringLit ∨ diagnostic.code = .openEndedComment) :
    behind = [] := by
  obtain ⟨rule, span, text⟩ := lexeme
  cases rule with
  | whitespace | newline | lineComment | token => cases h
  | blockComment closed =>
      cases closed with
      | true => cases h
      | false => exact hdescribes.1 rfl
  | byteOrderMark =>
      rw [diagnostic?, Option.ite_none_left_eq_some] at h
      obtain ⟨-, h⟩ := h
      cases h
      rcases hcode with hcode | hcode <;> cases hcode
  | unclosed | unmatched =>
      cases h
      rcases hcode with hcode | hcode <;> cases hcode
  | unclosedVerbatim => exact hdescribes.1

end Faults

theorem diagnostic?_span {lexeme : Lexeme} {diagnostic : Diagnostic}
    (h : lexeme.diagnostic? = some diagnostic) : diagnostic.span = lexeme.span := by
  unfold diagnostic? at h
  repeat' split at h
  all_goals cases h
  all_goals rfl

end Lexeme

/-! ## The errors of a text -/

theorem start_lt_stop {source : String} {diagnostic : Diagnostic}
    (h : diagnostic ∈ (lex source).diagnostics) :
    diagnostic.span.start < diagnostic.span.stop := by
  rw [lex_diagnostics, List.mem_filterMap] at h
  obtain ⟨lexeme, hlexeme, hsome⟩ := h
  rw [Lexeme.diagnostic?_span hsome]
  exact Lexeme.ofText_nonempty hlexeme

theorem lex_diagnostics_apart (source : String) :
    (lex source).diagnostics.Pairwise (·.span.stop ≤ ·.span.start) := by
  have hordered := List.pairwise_map.mp (Lexeme.ofText_cut source).1.ordered
  rw [lex_diagnostics, List.pairwise_filterMap]
  refine hordered.imp fun {first second} hstop d hd e he => ?_
  rw [Lexeme.diagnostic?_span hd, Lexeme.diagnostic?_span he]
  exact hstop

theorem lex_diagnostics_ordered (source : String) :
    (lex source).diagnostics.Pairwise (·.span.start < ·.span.start) :=
  (lex_diagnostics_apart source).imp_of_mem fun hfirst _ hstop =>
    Nat.lt_of_lt_of_le (start_lt_stop hfirst) hstop

theorem Lexeme.fault_of_made {source : String} {token : Token} {lexeme : Lexeme}
    (hmem : lexeme ∈ Lexeme.ofText source) (hown : lexeme.isTrivia = false)
    (hmade : Lexer.MadeOf token lexeme) {diagnostic : Diagnostic} :
    lexeme.diagnostic? = some diagnostic ↔
      LexicalFault token.kind token.span (token.span.slice source).toList diagnostic := by
  obtain ⟨_, _, _, _, hdescribes⟩ := describes hmem
  rw [diagnostic?_of_own hdescribes hown, hmade.kind, hmade.span, slice_of_mem hmem,
    String.toList_ofList]

theorem mem_lex_diagnostics (source : String) (diagnostic : Diagnostic) :
    diagnostic ∈ (lex source).diagnostics ↔
      (∃ token ∈ (lex source).tokens.inner,
        LexicalFault token.kind token.span (token.span.slice source).toList diagnostic) ∨
      ∃ comment ∈ Lexeme.ofText source, comment.isTrivia = true ∧ OpensComment comment.text ∧
        diagnostic = .error .openEndedComment comment.span [] := by
  rw [lex_diagnostics, List.mem_filterMap]
  constructor
  · rintro ⟨lexeme, hmem, hsome⟩
    obtain ⟨_, _, _, _, hdescribes⟩ := Lexeme.describes hmem
    cases htrivia : lexeme.isTrivia with
    | true =>
        obtain ⟨hopens, heq⟩ := (Lexeme.diagnostic?_of_trivia hdescribes htrivia).mp hsome
        exact .inr ⟨lexeme, hmem, htrivia, hopens, heq⟩
    | false =>
        obtain ⟨token, htoken, hmade⟩ := exists_made_of_mem_owned hmem htrivia
        exact .inl ⟨token, htoken, (Lexeme.fault_of_made hmem htrivia hmade).mp hsome⟩
  · rintro (⟨token, htoken, hfault⟩ | ⟨comment, hmem, htrivia, hopens, heq⟩)
    · obtain ⟨lexeme, hmem, hown, hmade⟩ := exists_made_of_mem_inner htoken
      exact ⟨lexeme, hmem, (Lexeme.fault_of_made hmem hown hmade).mpr hfault⟩
    · obtain ⟨_, _, _, _, hdescribes⟩ := Lexeme.describes hmem
      exact ⟨comment, hmem,
        (Lexeme.diagnostic?_of_trivia hdescribes htrivia).mpr ⟨hopens, heq⟩⟩

theorem stop_of_unended {source : String} {diagnostic : Diagnostic}
    (hmem : diagnostic ∈ (lex source).diagnostics)
    (hcode : diagnostic.code = .unterminatedStringLit ∨ diagnostic.code = .openEndedComment) :
    diagnostic.span.stop = source.utf8ByteSize := by
  rw [lex_diagnostics, List.mem_filterMap] at hmem
  obtain ⟨lexeme, hlexeme, hsome⟩ := hmem
  obtain ⟨before, behind, hsource, hspan, hdescribes⟩ := Lexeme.describes hlexeme
  obtain rfl := Lexeme.behind_of_unended hdescribes hsome hcode
  rw [Lexeme.diagnostic?_span hsome, hspan, ← Lexeme.byteLength_toList, hsource, List.append_nil,
    Lexeme.byteLength_append]

theorem length_unended (source : String) :
    ((lex source).diagnostics.filter (·.code == .openEndedComment)).length ≤ 1 := by
  have happart := (lex_diagnostics_apart source).filter (·.code == .openEndedComment)
  have hstop : ∀ diagnostic ∈ (lex source).diagnostics.filter (·.code == .openEndedComment),
      diagnostic.span.start < diagnostic.span.stop ∧
        diagnostic.span.stop = source.utf8ByteSize := by
    intro diagnostic hmem
    obtain ⟨hmem, hcode⟩ := List.mem_filter.mp hmem
    exact ⟨start_lt_stop hmem, stop_of_unended hmem (.inr (eq_of_beq hcode))⟩
  generalize (lex source).diagnostics.filter (·.code == .openEndedComment) = found at happart hstop
  match found with
  | [] | [_] => simp
  | first :: second :: rest =>
      have hle := List.rel_of_pairwise_cons happart (List.mem_cons_self ..)
      obtain ⟨-, hfirst⟩ := hstop first (by simp)
      obtain ⟨hlt, hsecond⟩ := hstop second (by simp)
      omega

theorem mark_of_head {source : String} {lexeme : Lexeme} (hmem : lexeme ∈ Lexeme.ofText source)
    (hhead : lexeme.text.head? = some '\ufeff') :
    lexeme.text = ['\ufeff'] ∧ (lexeme.isTrivia = true ↔ lexeme.span.start = 0) ∧
      (lexeme.span.start ≠ 0 → ∃ token ∈ (lex source).tokens.inner,
        token.kind = .unknown ∧ token.span = lexeme.span) := by
  obtain ⟨before, c, rest, -, hscanned⟩ := Lexeme.ofText_scanned hmem
  obtain ⟨hn, -⟩ := LexemeRule.scan_takes c rest
  obtain rfl : c = '\ufeff' := by
    obtain ⟨n, hsucc⟩ := Nat.exists_eq_add_of_lt hn
    rw [hscanned.text, hsucc] at hhead
    simpa using hhead
  have hrule : lexeme.rule = .byteOrderMark := by rw [hscanned.rule, LexemeRule.scan_mark]
  have htrivia : lexeme.isTrivia = true ↔ lexeme.span.start = 0 := by
    rw [Lexeme.isTrivia, hrule]
    exact beq_iff_eq
  refine ⟨?_, htrivia, fun hstart => ?_⟩
  · rw [hscanned.text, LexemeRule.scan_mark]
    rfl
  · have hown : lexeme.isTrivia = false := by
      rw [← Bool.not_eq_true, htrivia]
      exact hstart
    obtain ⟨token, htoken, hmade⟩ := exists_made_of_mem_owned hmem hown
    refine ⟨token, htoken, ?_, hmade.span⟩
    rw [hmade.kind, Lexeme.kind, hrule]

/-- The errors of the lexer, in the order in which they stand in the text, are those of its tokens
and the one comment that may be left open.  A verbatim string and a comment that are not closed
take all the text that is left. -/
theorem lex_errors (source : String) :
    (lex source).diagnostics.Pairwise (·.span.start < ·.span.start) ∧
      (∀ diagnostic, diagnostic ∈ (lex source).diagnostics ↔
        (∃ token ∈ (lex source).tokens.inner,
          LexicalFault token.kind token.span (token.span.slice source).toList diagnostic) ∨
        ∃ comment ∈ Lexeme.ofText source, comment.isTrivia = true ∧ OpensComment comment.text ∧
          diagnostic = .error .openEndedComment comment.span []) ∧
      (∀ diagnostic ∈ (lex source).diagnostics,
        diagnostic.code = .unterminatedStringLit ∨ diagnostic.code = .openEndedComment →
          diagnostic.span.stop = source.utf8ByteSize) ∧
      ((lex source).diagnostics.filter (·.code == .openEndedComment)).length ≤ 1 ∧
      ∀ lexeme ∈ Lexeme.ofText source, lexeme.text.head? = some '\ufeff' →
        lexeme.text = ['\ufeff'] ∧ (lexeme.isTrivia = true ↔ lexeme.span.start = 0) ∧
          (lexeme.span.start ≠ 0 → ∃ token ∈ (lex source).tokens.inner,
            token.kind = .unknown ∧ token.span = lexeme.span) :=
  ⟨lex_diagnostics_ordered source, mem_lex_diagnostics source,
    fun _ hmem hcode => stop_of_unended hmem hcode, length_unended source,
    fun _ hmem hhead => mark_of_head hmem hhead⟩

end TolerantSyntax
