import TolerantSyntax.Proofs.Lexer.Errors
import TolerantSyntax.Proofs.Lexer.Scanning

/-!
# Literals that are not closed

A string or a character without its closing quote takes the rest of its line, but for one
character: a backslash takes the character behind it along, and in front of a line feed or at the
end of the text there is none.  Such a backslash is left over, as an unknown token of its own.  On
every other line nothing is left to be lexed.
-/

namespace TolerantSyntax

open Lexeme (byteLength byteLength_append)

/-- The line on which a literal breaks off: what is in front of the literal, its text, what the
line has behind it, and what is behind the line. -/
structure BrokenLine where
  front : List Char
  text : List Char
  rest : List Char
  behind : List Char

namespace BrokenLine

def span (line : BrokenLine) : Span :=
  ⟨byteLength line.front, byteLength line.front + byteLength line.text⟩

def backslash (line : BrokenLine) : Span := ⟨line.span.stop, line.span.stop + 1⟩

/-- The span starts on the line, from the literal on. -/
def Holds (line : BrokenLine) (span : Span) : Prop :=
  line.span.start ≤ span.start ∧ span.start < line.span.stop + byteLength line.rest

/-- The line stands in the text, and is a line from the literal on. -/
structure In (line : BrokenLine) (source : String) : Prop where
  source : source.toList = line.front ++ (line.text ++ (line.rest ++ line.behind))
  within : '\n' ∉ line.text ++ line.rest
  ends : line.behind = [] ∨ ∃ more, line.behind = '\n' :: more

end BrokenLine

theorem escaped_plain {c : Char} {rest : List Char} (hc : c ≠ '\\') :
    Escaped (c :: rest) ↔ Escaped rest := by
  refine ⟨fun h => ?_, .plain hc⟩
  cases h with
  | plain _ hrest => exact hrest
  | pair d _ => exact absurd rfl hc

theorem escaped_pair {c : Char} {rest : List Char} :
    Escaped ('\\' :: c :: rest) ↔ Escaped rest := by
  refine ⟨fun h => ?_, .pair c⟩
  cases h with
  | plain hc _ => exact absurd rfl hc
  | pair _ hrest => exact hrest

theorem Escaped.not_backslash {text : List Char} (h : Escaped text) :
    ¬Escaped (text ++ ['\\']) := by
  induction h with
  | nil =>
      intro hescaped
      cases hescaped with
      | plain hc _ => exact hc rfl
  | plain hc _ ih => exact fun hescaped => ih ((escaped_plain hc).mp hescaped)
  | pair d _ ih => exact fun hescaped => ih (escaped_pair.mp hescaped)

namespace LexemeRule

theorem literalBody_open {quote : Char} {cs : List Char} (h : (literalBody quote cs).2 = false) :
    ∃ rest behind, cs.drop (literalBody quote cs).1 = rest ++ behind ∧
      (rest = [] ∨ rest = ['\\']) ∧ (behind = [] ∨ ∃ more, behind = '\n' :: more) ∧
      '\n' ∉ cs.take (literalBody quote cs).1 ∧ Escaped (cs.take (literalBody quote cs).1) := by
  fun_induction literalBody quote cs with
  | case1 => exact ⟨[], [], rfl, .inl rfl, .inl rfl, by simp, .nil⟩
  | case2 rest => cases h
  | case3 rest _ => exact ⟨[], '\n' :: rest, rfl, .inl rfl, .inr ⟨rest, rfl⟩, by simp, .nil⟩
  | case4 => exact ⟨['\\'], [], rfl, .inr rfl, .inl rfl, by simp, .nil⟩
  | case5 rest => exact ⟨['\\'], '\n' :: rest, rfl, .inr rfl, .inr ⟨rest, rfl⟩, by simp, .nil⟩
  | case6 d rest hd n closed hbody hquote hfeed ih =>
      rw [hbody] at ih
      obtain ⟨tail, behind, hdrop, htail, hbehind, hwithin, hescaped⟩ := ih h
      exact ⟨tail, behind, hdrop, htail, hbehind, by simpa [Ne.symm hd] using hwithin,
        .pair d hescaped⟩
  | case7 c rest hquote hfeed hslash n closed hbody ih =>
      rw [hbody] at ih
      obtain ⟨tail, behind, hdrop, htail, hbehind, hwithin, hescaped⟩ := ih h
      exact ⟨tail, behind, hdrop, htail, hbehind, by simpa [Ne.symm hfeed] using hwithin,
        .plain hslash hescaped⟩

theorem scan_unclosed {c : Char} {rest : List Char} {kind : TokenKind}
    (h : (scan c rest).1 = .unclosed kind) :
    (c = '"' ∨ c = '\'') ∧ scan c rest = literal kind c rest := by
  have hscans := scan_scans c rest
  generalize scan c rest = scanned at hscans h ⊢
  cases hscans with
  | numeral hdigit rest =>
      obtain ⟨_, hrule, -⟩ := numeral_rule (c :: rest)
      exact absurd (hrule.symm.trans h) nofun
  | string rest =>
      refine ⟨.inl rfl, ?_⟩
      simp only [literal] at h ⊢
      split at h <;> cases h
      rename_i hclosed
      simp [hclosed]
  | character rest =>
      refine ⟨.inr rfl, ?_⟩
      simp only [literal] at h ⊢
      split at h <;> cases h
      rename_i hclosed
      simp [hclosed]
  | verbatim behind =>
      simp only [LexemeRule.verbatim] at h
      split at h <;> cases h
  | whitespace | word | newline | mark | lineComment | blockComment | escaped | real | dot
  | symbol | unmatched => cases h

theorem scan_backslash (rest : List Char) : scan '\\' rest = (.unmatched, 1) := rfl

end LexemeRule
/-! ## Lexemes and errors -/

namespace Lexeme

variable {source : String} {lexeme other : Lexeme} {kind : TokenKind}

theorem exists_line (hmem : lexeme ∈ ofText source) (hrule : lexeme.rule = .unclosed kind) :
    ∃ line : BrokenLine, line.In source ∧ line.span = lexeme.span ∧
      (line.rest = [] ∨ line.rest = ['\\']) ∧
      (line.rest = [] ↔ Escaped (line.text ++ line.rest)) := by
  obtain ⟨front, c, cs, hsource, hscanned⟩ := ofText_scanned hmem
  obtain ⟨hquote, hscan⟩ := LexemeRule.scan_unclosed (hscanned.rule.symm.trans hrule)
  have hopen : (LexemeRule.literalBody c cs).2 = false := by
    have hliteral := hscanned.rule.symm.trans hrule
    rw [hscan] at hliteral
    simp only [LexemeRule.literal] at hliteral
    split at hliteral
    · cases hliteral
    · rename_i hclosed
      exact Bool.eq_false_iff.mpr hclosed
  obtain ⟨rest, behind, hdrop, hrest, hbehind, hwithin, hescaped⟩ :=
    LexemeRule.literalBody_open hopen
  have htext : lexeme.text = c :: cs.take (LexemeRule.literalBody c cs).1 := by
    rw [hscanned.text, hscan]
    rfl
  have hslash : c ≠ '\\' := by rcases hquote with rfl | rfl <;> decide
  have hfeed : c ≠ '\n' := by rcases hquote with rfl | rfl <;> decide
  refine ⟨⟨front, lexeme.text, rest, behind⟩, ⟨?_, ?_, hbehind⟩, hscanned.span.symm, hrest, ?_⟩
  · rw [hsource, htext, ← hdrop, List.cons_append, List.take_append_drop]
  · rw [htext, List.cons_append, List.mem_cons, List.mem_append]
    rcases hrest with rfl | rfl <;> simp [hfeed.symm, hwithin]
  · rw [htext, List.cons_append, escaped_plain hslash]
    rcases hrest with rfl | rfl
    · simp [hescaped]
    · simp [hescaped.not_backslash]

theorem eq_of_holds {line : BrokenLine} (hmem : lexeme ∈ ofText source) (hline : line.In source)
    (hspan : line.span = lexeme.span) (hrest : line.rest = [] ∨ line.rest = ['\\'])
    (hother : other ∈ ofText source) (hholds : line.Holds other.span) :
    other = lexeme ∨ line.rest = ['\\'] ∧ other = ⟨.unmatched, line.backslash, ['\\']⟩ := by
  obtain ⟨hstart, hstop⟩ := hholds
  have hnonempty := ofText_nonempty hother
  rcases apart hmem hother with rfl | hle | hle
  · exact .inl rfl
  · rw [← hspan] at hle
    rcases hrest with hrest | hrest
    · rw [hrest] at hstop
      exact absurd hle (Nat.not_le.mpr hstop)
    · right
      have hone : byteLength ['\\'] = 1 := rfl
      rw [hrest, hone] at hstop
      have hplace : other.span.start = byteLength (line.front ++ line.text) := by
        rw [byteLength_append]
        change other.span.start = line.span.stop
        omega
      have hsource : source.toList = (line.front ++ line.text) ++ '\\' :: line.behind := by
        rw [hline.source, hrest, List.append_assoc, List.singleton_append]
      have hscanned := scannedAt hother hsource hplace
      have htext : other.text = ['\\'] := by
        rw [hscanned.text, LexemeRule.scan_backslash]
        rfl
      refine ⟨hrest, ?_⟩
      obtain ⟨rule, span, text⟩ := other
      obtain rfl : rule = .unmatched := by
        rw [show rule = _ from hscanned.rule, LexemeRule.scan_backslash]
      obtain rfl : text = ['\\'] := htext
      rw [show span = _ from hscanned.span, byteLength_append]
      rfl
  · rw [← hspan] at hle
    omega

/-- The last backslash of a line is a lexeme of its own. -/
theorem backslash_mem {line : BrokenLine} (hmem : lexeme ∈ ofText source) (hline : line.In source)
    (hspan : line.span = lexeme.span) (hrest : line.rest = ['\\']) :
    ⟨.unmatched, line.backslash, ['\\']⟩ ∈ ofText source := by
  have hone : byteLength ['\\'] = 1 := rfl
  have hwithin : line.span.stop < source.utf8ByteSize := by
    rw [← byteLength_toList, hline.source, hrest, byteLength_append, byteLength_append,
      byteLength_append, hone]
    simp only [BrokenLine.span]
    omega
  obtain ⟨other, hother, hstart, hstop⟩ := exists_at hwithin
  have hnonempty := ofText_nonempty hmem
  have hbehind : line.span.stop ≤ other.span.start := by
    rcases apart hmem hother with rfl | hle | hle
    · rw [hspan] at hstop
      exact absurd hstop (Nat.lt_irrefl _)
    · rwa [hspan]
    · rw [hspan] at hstop
      omega
  have hholds : line.Holds other.span := by
    refine ⟨?_, ?_⟩
    · rw [hspan] at hbehind ⊢
      omega
    · rw [hrest, hone]
      omega
  rcases eq_of_holds hmem hline hspan (.inr hrest) hother hholds with rfl | ⟨-, rfl⟩
  · rw [hspan] at hbehind
    omega
  · exact hother

theorem rule_of_newlineInConst {diagnostic : Diagnostic} (h : lexeme.diagnostic? = some diagnostic)
    (hcode : diagnostic.code = .newlineInConst) : ∃ kind, lexeme.rule = .unclosed kind := by
  unfold diagnostic? at h
  split at h
  · rename_i hrule
    exact ⟨_, hrule⟩
  · cases h
    cases hcode
  · cases h
    cases hcode
  · cases h
    cases hcode
  · split at h
    · cases h
    · cases h
      cases hcode
  · cases h

end Lexeme

def BrokenLine.unexpected (line : BrokenLine) : Diagnostic :=
  .error .unexpectedCharacter line.backslash ["\\"]

/-- What becomes of the line of a literal that is reported as not closed.  Nothing is left of it
exactly if every backslash on it takes a character, and then no other token and no other error
starts there.  Otherwise its last backslash is left over, as one unknown token with its error. -/
structure BrokenLine.Lexed (line : BrokenLine) (source : String) (diagnostic : Diagnostic) :
    Prop where
  reported : line.span = diagnostic.span
  literal : ∃ token ∈ (lex source).tokens.inner,
    (token.kind = .stringLiteral ∨ token.kind = .charLiteral) ∧ token.span = line.span
  whole : line.rest = [] ↔ Escaped (line.text ++ line.rest)
  tokens : ∀ token ∈ (lex source).tokens.inner, line.Holds token.span →
    token.span = line.span ∨
      line.rest = ['\\'] ∧ token.kind = .unknown ∧ token.span = line.backslash
  errors : ∀ other ∈ (lex source).diagnostics, line.Holds other.span →
    other = diagnostic ∨ line.rest = ['\\'] ∧ other = line.unexpected
  left : line.rest ≠ [] → line.rest = ['\\'] ∧ line.unexpected ∈ (lex source).diagnostics ∧
    ∃ token ∈ (lex source).tokens.inner, token.kind = .unknown ∧ token.span = line.backslash

/-- A literal that is not closed takes the rest of its line, up to a last backslash. -/
theorem lex_unclosed (source : String) {diagnostic : Diagnostic}
    (hdiagnostic : diagnostic ∈ (lex source).diagnostics)
    (hcode : diagnostic.code = .newlineInConst) :
    ∃ line : BrokenLine, line.In source ∧ line.Lexed source diagnostic := by
  rw [lex_diagnostics, List.mem_filterMap] at hdiagnostic
  obtain ⟨lexeme, hmem, hreported⟩ := hdiagnostic
  obtain ⟨kind, hrule⟩ := Lexeme.rule_of_newlineInConst hreported hcode
  obtain ⟨line, hline, hspan, hrest, hescaped⟩ := Lexeme.exists_line hmem hrule
  have hkind : lexeme.kind = kind := by rw [Lexeme.kind, hrule]
  have hliteral : kind = .stringLiteral ∨ kind = .charLiteral := by
    have hspells := Lexeme.spells hmem
    rwa [hrule] at hspells
  have hown : lexeme.isTrivia = false := by rw [Lexeme.isTrivia, hrule]
  refine ⟨line, hline, ?_, ?_, hescaped, fun token htoken hholds => ?_,
    fun other hother hholds => ?_, fun hleft => ?_⟩
  · rw [hspan, Lexeme.diagnostic?_span hreported]
  · obtain ⟨token, htoken, hmade⟩ := exists_made_of_mem_owned hmem hown
    exact ⟨token, htoken, by rwa [hmade.kind, hkind], hmade.span.trans hspan.symm⟩
  · obtain ⟨made, hmade, -, hof⟩ := exists_made_of_mem_inner htoken
    rw [hof.span] at hholds ⊢
    rw [hof.kind]
    rcases Lexeme.eq_of_holds hmem hline hspan hrest hmade hholds with rfl | ⟨hslash, rfl⟩
    · exact .inl hspan.symm
    · exact .inr ⟨hslash, rfl, rfl⟩
  · rw [lex_diagnostics, List.mem_filterMap] at hother
    obtain ⟨found, hfound, hsome⟩ := hother
    rw [Lexeme.diagnostic?_span hsome] at hholds
    rcases Lexeme.eq_of_holds hmem hline hspan hrest hfound hholds with rfl | ⟨hslash, rfl⟩
    · exact .inl (Option.some.inj (hsome.symm.trans hreported))
    · exact .inr ⟨hslash, (Option.some.inj hsome).symm⟩
  · have hslash := hrest.resolve_left hleft
    have hbackslash := Lexeme.backslash_mem hmem hline hspan hslash
    obtain ⟨token, htoken, hmade⟩ := exists_made_of_mem_owned hbackslash rfl
    refine ⟨hslash, ?_, token, htoken, hmade.kind, hmade.span⟩
    rw [lex_diagnostics, List.mem_filterMap]
    exact ⟨_, hbackslash, rfl⟩

theorem lex_unclosed_quote :
    let source := "x = \"a\\\"\ny"
    let diagnostic := Diagnostic.error .newlineInConst ⟨4, 8⟩ []
    diagnostic ∈ (lex source).diagnostics ∧ diagnostic.code = .newlineInConst ∧
      ∃ line : BrokenLine, line.In source ∧ line.Lexed source diagnostic := by
  have hmem : .error .newlineInConst ⟨4, 8⟩ [] ∈ (lex "x = \"a\\\"\ny").diagnostics := by
    decide +kernel
  exact ⟨hmem, rfl, lex_unclosed _ hmem rfl⟩

theorem lex_unclosed_backslash :
    (lex "\"abc\\").diagnostics =
        [.error .newlineInConst ⟨0, 4⟩ [], .error .unexpectedCharacter ⟨4, 5⟩ ["\\"]] ∧
      (lex "\"abc\\").tokens.inner.map (fun token => (token.kind, token.span)) =
        [(.stringLiteral, ⟨0, 4⟩), (.unknown, ⟨4, 5⟩)] ∧
      ¬∀ diagnostic ∈ (lex "\"abc\\").diagnostics, diagnostic.code = .newlineInConst →
        diagnostic.span.stop = "\"abc\\".utf8ByteSize ∨
          Span.slice ⟨diagnostic.span.stop, diagnostic.span.stop + 1⟩ "\"abc\\" = "\n" := by
  decide +kernel

end TolerantSyntax
