import TolerantSyntax.Proofs.Lexer.Scanning

/-!
# Flags state what the text shows

The gap between two tokens is split over two calls of the lexer: one takes the trivia behind the
first token, the next one the trivia in front of the second.  Between the calls the lexer keeps
only whether the first part is empty and whether it has a line feed.  `Reading` says what these
mean for the text.  Every call keeps it, and from it the flags of a token are read off the text.
-/

namespace TolerantSyntax

open Lexeme (byteLength byteLength_append byteLength_pos)

/-- The text between a token and the one in front of it; in front of the first token stands its
leading trivia only. -/
def Token.gap (source : String) (front? : Option Token) (token : Token) : List Char :=
  (Span.slice ⟨(front?.map (·.span.stop)).getD token.leading.start, token.span.start⟩ source).toList

/-- The flags of a token say what stands around it. -/
structure Token.Flagged (source : String) (front? : Option Token) (token : Token) : Prop where
  leading : token.flags.leadingTrivia = true ↔ token.leading.start < token.leading.stop
  trailing : token.flags.trailingTrivia = true ↔ token.trailing.start < token.trailing.stop
  newline : token.flags.newlineBefore = true ↔ '\n' ∈ token.gap source front?
  adjacent : token.flags.adjacent = true ↔ ∃ front ∈ front?, front.span.stop = token.span.start
  lineStart : token.flags.lineStart = true ↔ token.flags.newlineBefore = true ∨ front? = none

namespace Lexeme

def chars (run : List Lexeme) : List Char := run.flatMap (·.text)

theorem chars_append (left right : List Lexeme) :
    chars (left ++ right) = chars left ++ chars right :=
  List.flatMap_append

theorem chars_singleton (lexeme : Lexeme) : chars [lexeme] = lexeme.text :=
  List.flatMap_singleton ..

theorem chars_listFrom (fuel offset : Nat) (cs : List Char) (h : cs.length ≤ fuel) :
    chars (listFrom fuel offset cs) = cs := by
  induction fuel generalizing offset cs with
  | zero =>
      rw [List.eq_nil_of_length_eq_zero (Nat.le_zero.mp h)]
      rfl
  | succ fuel ih =>
      cases cs with
      | nil => rfl
      | cons c rest =>
          obtain ⟨hn, -⟩ := LexemeRule.scan_takes c rest
          have hlength : ((c :: rest).drop (LexemeRule.scan c rest).2).length ≤ fuel := by
            rw [List.length_drop]
            omega
          rw [listFrom_cons, chars, List.flatMap_cons, ← chars, ih _ _ hlength,
            List.take_append_drop]

theorem listFrom_span {fuel offset : Nat} {cs : List Char} {left right : List Lexeme}
    {lexeme : Lexeme} (h : listFrom fuel offset cs = left ++ lexeme :: right) :
    lexeme.span = ⟨offset + byteLength (chars left),
      offset + byteLength (chars left) + byteLength lexeme.text⟩ := by
  induction left generalizing fuel offset cs with
  | nil =>
      cases fuel with
      | zero => cases h
      | succ fuel =>
          cases cs with
          | nil => cases h
          | cons c rest =>
              rw [listFrom_cons] at h
              obtain ⟨rfl, -⟩ := List.cons.inj h
              rfl
  | cons first left ih =>
      cases fuel with
      | zero => cases h
      | succ fuel =>
          cases cs with
          | nil => cases h
          | cons c rest =>
              rw [listFrom_cons] at h
              obtain ⟨rfl, hrest⟩ := List.cons.inj h
              have hspan := ih hrest
              rw [chars, List.flatMap_cons, ← chars, byteLength_append, ← Nat.add_assoc]
              exact hspan

section Runs

variable {source : String} {left run right : List Lexeme}

theorem chars_ofText (source : String) : chars (ofText source) = source.toList :=
  chars_listFrom _ _ _ (Nat.le_of_eq String.length_toList)

theorem ofText_span {lexeme : Lexeme} (h : ofText source = left ++ lexeme :: right) :
    lexeme.span =
      ⟨byteLength (chars left), byteLength (chars left) + byteLength lexeme.text⟩ := by
  have hspan := listFrom_span h
  rwa [Nat.zero_add] at hspan

theorem slice_run (h : ofText source = left ++ run ++ right) :
    (Span.slice ⟨byteLength (chars left), byteLength (chars (left ++ run))⟩ source).toList =
      chars run := by
  have hsource : source = String.ofList (chars left ++ chars run ++ chars right) := by
    rw [← chars_append, ← chars_append, ← h, chars_ofText, String.ofList_toList]
  rw [chars_append, byteLength_append, hsource, Span.slice_of_append, String.toList_ofList]

theorem runSpan_eq (h : ofText source = left ++ run ++ right) :
    Lexer.runSpan (byteLength (chars left)) run =
      ⟨byteLength (chars left), byteLength (chars (left ++ run))⟩ := by
  rcases List.eq_nil_or_concat run with rfl | ⟨init, last, rfl⟩
  · simp [Lexer.runSpan]
  · have hsplit : ofText source = (left ++ init) ++ last :: right := by simpa using h
    have hlast := ofText_span hsplit
    simp [Lexer.runSpan, hlast, chars, byteLength_append, Nat.add_assoc]

end Runs

theorem breaksLine_iff {source : String} {lexeme : Lexeme} (hmem : lexeme ∈ ofText source)
    (htrivia : lexeme.isTrivia = true) : lexeme.breaksLine = true ↔ '\n' ∈ lexeme.text := by
  have hspells := spells hmem
  obtain ⟨rule, span, text⟩ := lexeme
  cases rule with
  | whitespace =>
      refine ⟨nofun, fun hfeed => ?_⟩
      cases hspells '\n' hfeed
  | newline =>
      obtain rfl : text = ['\n'] := hspells
      simp [breaksLine]
  | lineComment => exact ⟨nofun, fun hfeed => absurd hfeed hspells⟩
  | blockComment closed => exact List.contains_iff_mem
  | byteOrderMark =>
      obtain rfl : text = ['\ufeff'] := hspells
      exact ⟨nofun, fun hfeed => absurd (List.mem_singleton.mp hfeed) (by decide)⟩
  | token | unclosed | unclosedVerbatim | unmatched => cases htrivia

theorem any_breaksLine {source : String} {run : List Lexeme}
    (hrun : ∀ lexeme ∈ run, lexeme ∈ ofText source ∧ lexeme.isTrivia = true) :
    run.any (·.breaksLine) = true ↔ '\n' ∈ chars run := by
  rw [List.any_eq_true, chars, List.mem_flatMap]
  refine exists_congr fun lexeme => and_congr_right fun hmem => ?_
  obtain ⟨htext, htrivia⟩ := hrun lexeme hmem
  exact breaksLine_iff htext htrivia

end Lexeme
namespace Lexer

/-! ## Between two calls -/

open Lexeme (chars chars_append chars_ofText slice_run runSpan_eq any_breaksLine)

/-- What a lexer between two tokens keeps of the text: `own` are the lexemes up to the token in
front, and `behind` is the trivia that this token has taken. -/
structure Reading (source : String) (lexer : Lexer) (front? : Option Token)
    (own behind : List Lexeme) : Prop where
  lexemes : Lexeme.ofText source = own ++ behind ++ lexer.pending
  trivia : ∀ lexeme ∈ behind, lexeme.isTrivia = true
  offset : lexer.offset = byteLength (chars (own ++ behind))
  textEnd : lexer.textEnd = source.utf8ByteSize
  finished : lexer.finished = false
  started : lexer.started = front?.isSome
  front : ∀ front ∈ front?, front.span.stop = byteLength (chars own)
  first : front? = none → behind = []
  feed : (lexer.started && lexer.atLineStart) = behind.any (·.breaksLine)
  touching : ∀ front ∈ front?, lexer.touching = (front.span.stop == lexer.offset)

theorem reading_start (source : String) : Reading source (ofText source) none [] [] where
  lexemes := by simp [ofText]
  trivia := by simp
  offset := rfl
  textEnd := rfl
  finished := rfl
  started := rfl
  front := by simp
  first _ := rfl
  feed := rfl
  touching := by simp

structure Finished (source : String) (lexer : Lexer) : Prop where
  pending : lexer.pending = []
  textEnd : lexer.textEnd = source.utf8ByteSize
  finished : lexer.finished = true

namespace Reading

variable {source : String} {lexer : Lexer} {front? : Option Token} {own behind : List Lexeme}
  (h : Reading source lexer front? own behind)
include h

/-- The flags that the lexer makes are those that the text shows. -/
theorem flagged {before rest : List Lexeme} {token : Token}
    (hpending : lexer.pending = before ++ rest)
    (hbefore : ∀ other ∈ before, other.isTrivia = true)
    (hleading : token.leading = runSpan lexer.offset before)
    (hspan : token.span.start = token.leading.stop)
    (htrailing : token.trailing.start ≤ token.trailing.stop)
    (hflags : token.flags = lexer.flags token.leading token.trailing
      (before.any (·.breaksLine) || (lexer.started && lexer.atLineStart))) :
    token.Flagged source front? := by
  have hsplit : Lexeme.ofText source = (own ++ behind) ++ before ++ rest := by
    rw [h.lexemes, hpending, ← List.append_assoc]
  rw [h.offset, runSpan_eq hsplit] at hleading
  have hstart : token.span.start = byteLength (chars (own ++ behind ++ before)) := by
    rw [hspan, hleading]
  have hgap : token.gap source front? = chars (behind ++ before) := by
    have hfrom : (front?.map (·.span.stop)).getD token.leading.start = byteLength (chars own) := by
      cases front? with
      | none => rw [hleading, h.first rfl, List.append_nil]; rfl
      | some front => exact h.front front rfl
    rw [List.append_assoc own behind] at hsplit hstart
    rw [Token.gap, hfrom, hstart, slice_run hsplit]
  have htrivia : ∀ lexeme ∈ behind ++ before,
      lexeme ∈ Lexeme.ofText source ∧ lexeme.isTrivia = true := by
    intro lexeme hmem
    rw [hsplit]
    rcases List.mem_append.mp hmem with hmem | hmem
    · exact ⟨by simp [hmem], h.trivia lexeme hmem⟩
    · exact ⟨by simp [hmem], hbefore lexeme hmem⟩
  have hlength := congrArg byteLength (chars_append (own ++ behind) before)
  rw [byteLength_append] at hlength
  refine ⟨?_, ?_, ?_, ?_, ?_⟩
  · rw [hflags, hleading]
    simp only [flags, Span.isEmpty, Bool.not_eq_true', beq_eq_false_iff_ne]
    omega
  · rw [hflags]
    simp only [flags, Span.isEmpty, Bool.not_eq_true', beq_eq_false_iff_ne]
    omega
  · rw [hflags, hgap, ← any_breaksLine htrivia, List.any_append, h.feed, Bool.or_comm]
    rfl
  · rw [hflags, hleading, hstart]
    cases hfront : front? with
    | none => simp [flags, h.started, hfront]
    | some front =>
        have hstop := h.front front hfront
        have htouching := h.touching front hfront
        rw [h.offset] at htouching
        have hown := congrArg byteLength (chars_append own behind)
        rw [byteLength_append] at hown
        simp only [flags, h.started, hfront, htouching, Span.isEmpty, Option.isSome_some,
          Bool.true_and, Bool.and_eq_true, beq_iff_eq, Option.mem_some, exists_eq_left']
        omega
  · rw [hflags]
    simp [flags, h.started]

/-- A call gives a token with the flags that the text shows, and keeps what the lexer knows of the
text, until the end of file. -/
theorem next :
    lexer.next.1.Flagged source front? ∧
      (lexer.next.1.kind = .eof ∧ Finished source lexer.next.2 ∨
        lexer.next.1.kind ≠ .eof ∧ lexer.next.2.pending.length < lexer.pending.length ∧
          ∃ own behind, Reading source lexer.next.2 (some lexer.next.1) own behind) := by
  rcases trivia_or_own lexer.pending with htrivia | ⟨before, lexeme, rest, hsplit, hbefore, hown⟩
  · have hall : lexer.textEnd = byteLength (chars (own ++ behind ++ lexer.pending)) := by
      rw [h.textEnd, ← h.lexemes, chars_ofText, Lexeme.byteLength_toList]
    have hleading : (runSpan lexer.offset lexer.pending).stop = lexer.textEnd := by
      have hends : Lexeme.ofText source = (own ++ behind) ++ lexer.pending ++ [] := by
        rw [List.append_nil, h.lexemes]
      rw [h.offset, runSpan_eq hends, hall]
    rw [next_eq_eof htrivia, h.finished]
    refine ⟨?_, .inl ⟨rfl, rfl, h.textEnd, rfl⟩⟩
    exact h.flagged (List.append_nil _).symm htrivia rfl hleading.symm (Nat.le_refl _) rfl
  · have hat : Lexeme.ofText source = (own ++ behind ++ before) ++ lexeme :: rest := by
      rw [h.lexemes, hsplit, List.append_assoc _ before]
    have hwhole : Lexeme.ofText source = (own ++ behind ++ before ++ [lexeme]) ++
        (splitTrailing rest).1 ++ (splitTrailing rest).2 := by
      rw [hat, List.append_assoc _ (splitTrailing rest).1, splitTrailing_append]
      simp
    have hspan := Lexeme.ofText_span hat
    have hstop : lexeme.span.stop = byteLength (chars (own ++ behind ++ before ++ [lexeme])) := by
      rw [hspan, chars_append (own ++ behind ++ before) [lexeme], byteLength_append,
        Lexeme.chars_singleton]
    have hleading : (runSpan lexer.offset before).stop = lexeme.span.start := by
      rw [h.offset, runSpan_eq hat, hspan]
    have htrailing := runSpan_eq hwhole
    rw [← hstop] at htrailing
    have hforward : lexeme.span.stop ≤ (runSpan lexeme.span.stop (splitTrailing rest).1).stop := by
      rw [htrailing, hstop, chars_append _ (splitTrailing rest).1, byteLength_append]
      exact Nat.le_add_right _ _
    have hkind : lexeme.kind ≠ .eof := by
      refine (Lexeme.ofText_cut source).2 lexeme ?_
      rw [hat]
      simp
    have hlength : (splitTrailing rest).2.length < lexer.pending.length := by
      have hlength := length_splitTrailing_le rest
      rw [hsplit, List.length_append, List.length_cons]
      omega
    rw [next_eq hsplit hbefore hown]
    refine ⟨h.flagged hsplit hbefore rfl hleading.symm hforward rfl, .inr ⟨hkind, hlength,
      own ++ behind ++ before ++ [lexeme], (splitTrailing rest).1, ?_⟩⟩
    exact {
      lexemes := hwhole
      trivia := (splitTrailing_trails rest).trivia
      offset := by rw [htrailing]
      textEnd := h.textEnd
      finished := h.finished
      started := rfl
      front := by simpa using hstop
      first := nofun
      feed := rfl
      touching := by simp [Span.isEmpty, runSpan] }

end Reading

theorem Finished.next {source : String} {lexer : Lexer} (h : Finished source lexer) :
    lexer.next.1 = .bare .eof (.point source.utf8ByteSize) ∧ Finished source lexer.next.2 := by
  have hpending : ∀ lexeme ∈ lexer.pending, lexeme.isTrivia = true := by simp [h.pending]
  rw [next_eq_eof hpending, h.finished, h.textEnd]
  exact ⟨rfl, rfl, rfl, rfl⟩

/-! ## All calls -/

/-- The token that a call gives, by how many calls there were before. -/
def stream (lexer : Lexer) : Nat → Token
  | 0 => lexer.next.1
  | count + 1 => lexer.next.2.stream count

theorem Finished.stream {source : String} {lexer : Lexer} (h : Finished source lexer)
    (count : Nat) : lexer.stream count = .bare .eof (.point source.utf8ByteSize) := by
  induction count generalizing lexer with
  | zero => exact h.next.1
  | succ count ih => exact ih h.next.2

/-- The tokens that are read up to the end of file have the flags that the text shows, each with
the one in front of it.  They are those of the calls, and behind them every call gives a bare end
of file. -/
theorem Reading.drain {source : String} {fuel : Nat} {lexer : Lexer} {front? : Option Token}
    {own behind : List Lexeme} (h : Reading source lexer front? own behind)
    (hfuel : lexer.pending.length < fuel) (tokens : TokenList) :
    ∃ more, (lexer.drain fuel tokens).tokens.tokens.toList = tokens.tokens.toList ++ more ∧
      (∀ first ∈ more.head?, first.Flagged source front?) ∧
      more.IsChain (fun front token => token.Flagged source (some front)) ∧
      ∀ count, lexer.stream count =
        (more[count]?).getD (.bare .eof (.point source.utf8ByteSize)) := by
  induction fuel generalizing lexer front? own behind tokens with
  | zero => omega
  | succ fuel ih =>
      rw [drain_succ]
      obtain ⟨hflagged, ⟨hkind, hfinished⟩ | ⟨hkind, hlength, own, behind, hreading⟩⟩ := h.next
      · rw [if_pos hkind]
        refine ⟨[lexer.next.1], by simp [TokenList.push], by simpa using hflagged, by simp, ?_⟩
        intro count
        cases count with
        | zero => rfl
        | succ count => exact hfinished.stream count
      · obtain ⟨more, htokens, hhead, hchain, hstream⟩ :=
          ih hreading (by omega) (tokens.push lexer.next.1)
        rw [if_neg hkind]
        refine ⟨lexer.next.1 :: more, ?_, by simpa using hflagged,
          List.isChain_cons.mpr ⟨hhead, hchain⟩, fun count => ?_⟩
        · rw [htokens]
          simp [TokenList.push]
        · cases count with
          | zero => rfl
          | succ count => exact hstream count

end Lexer

/-- The flags of every token of a text state what stands around it.  The tokens are what the calls
of the lexer give one after the other.  Behind the end of file every further call gives an end of
file without flags, whose spans are empty and stand at the end of the text. -/
theorem lex_flagged (source : String) :
    (∀ first ∈ (lex source).tokens.tokens.toList.head?, first.Flagged source none) ∧
      (lex source).tokens.tokens.toList.IsChain
        (fun front token => token.Flagged source (some front)) ∧
      ∀ count, (Lexer.ofText source).stream count =
        ((lex source).tokens.get? count).getD (.bare .eof (.point source.utf8ByteSize)) := by
  obtain ⟨more, htokens, hhead, hchain, hstream⟩ :=
    (Lexer.reading_start source).drain (Nat.lt_succ_self _) ⟨#[]⟩
  have hall : (lex source).tokens.tokens.toList = more := htokens
  refine ⟨hall ▸ hhead, hall ▸ hchain, fun count => ?_⟩
  rw [hstream, TokenList.get?, ← Array.getElem?_toList, hall]

end TolerantSyntax
