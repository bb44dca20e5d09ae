import Mathlib.Data.List.Chain
import Mathlib.Data.List.Forall2
import Mathlib.Data.List.TakeWhile
import TolerantSyntax.Proofs.Lexer.Tiling

/-!
# Trivia is attached to tokens

The lexer hands its lexemes out in order: every token takes the trivia in front of it, one
lexeme that is none, and the trivia behind it up to the first newline.  So the three spans
of all tokens cut the text, one behind the other.
-/

namespace TolerantSyntax

def Token.spans (token : Token) : List Span := [token.leading, token.span, token.trailing]

open Lexeme (byteLength byteLength_append)

namespace Lexeme

structure ScannedAt (lexeme : Lexeme) (offset : Nat) (c : Char) (rest : List Char) : Prop where
  rule : lexeme.rule = (LexemeRule.scan c rest).1
  text : lexeme.text = (c :: rest).take (LexemeRule.scan c rest).2
  span : lexeme.span = ⟨offset, offset + byteLength lexeme.text⟩

theorem listFrom_cons (fuel offset : Nat) (c : Char) (rest : List Char) :
    listFrom (fuel + 1) offset (c :: rest) =
      let n := (LexemeRule.scan c rest).2
      let stop := offset + byteLength ((c :: rest).take n)
      ⟨(LexemeRule.scan c rest).1, ⟨offset, stop⟩, (c :: rest).take n⟩
        :: listFrom fuel stop ((c :: rest).drop n) := rfl

theorem listFrom_scanned (fuel offset : Nat) (cs : List Char) :
    ∀ lexeme ∈ listFrom fuel offset cs, ∃ before c rest, cs = before ++ c :: rest ∧
      lexeme.ScannedAt (offset + byteLength before) c rest := by
  induction fuel generalizing offset cs with
  | zero => exact nofun
  | succ fuel ih =>
      cases cs with
      | nil => exact nofun
      | cons c rest =>
          intro lexeme hmem
          rw [listFrom_cons] at hmem
          rcases List.mem_cons.mp hmem with rfl | hmem
          · exact ⟨[], c, rest, rfl, rfl, rfl, rfl⟩
          · obtain ⟨before, d, behind, heq, hscanned⟩ := ih _ _ lexeme hmem
            refine ⟨(c :: rest).take (LexemeRule.scan c rest).2 ++ before, d, behind, ?_, ?_⟩
            · rw [List.append_assoc, ← heq, List.take_append_drop]
            · rw [byteLength_append, ← Nat.add_assoc]
              exact hscanned

theorem ofText_scanned {text : String} {lexeme : Lexeme} (h : lexeme ∈ ofText text) :
    ∃ before c rest, text.toList = before ++ c :: rest ∧
      lexeme.ScannedAt (byteLength before) c rest := by
  obtain ⟨before, c, rest, heq, hscanned⟩ := listFrom_scanned _ _ _ lexeme h
  rw [Nat.zero_add] at hscanned
  exact ⟨before, c, rest, heq, hscanned⟩

theorem ScannedAt.text_ne_nil {lexeme : Lexeme} {offset : Nat} {c : Char} {rest : List Char}
    (h : lexeme.ScannedAt offset c rest) : lexeme.text ≠ [] := by
  obtain ⟨hn, -⟩ := LexemeRule.scan_takes c rest
  rw [h.text, Ne, List.take_eq_nil_iff]
  simp only [reduceCtorEq, or_false]
  omega

theorem byteLength_pos {cs : List Char} (h : cs ≠ []) : 0 < byteLength cs := by
  cases cs with
  | nil => exact absurd rfl h
  | cons c cs => exact Nat.add_pos_left c.utf8Size_pos _

theorem ofText_nonempty {text : String} {lexeme : Lexeme} (h : lexeme ∈ ofText text) :
    lexeme.span.start < lexeme.span.stop := by
  obtain ⟨before, c, rest, -, hscanned⟩ := ofText_scanned h
  rw [hscanned.span]
  exact Nat.lt_add_of_pos_right (byteLength_pos hscanned.text_ne_nil)

end Lexeme

/-! ## What tokens take -/

namespace Lexer

structure Trails (behind : List Lexeme) : Prop where
  trivia : ∀ lexeme ∈ behind, lexeme.isTrivia = true
  newline : ∀ (front : List Lexeme) (lexeme : Lexeme) (rest : List Lexeme),
    behind = front ++ lexeme :: rest → lexeme.rule = .newline → rest = []

theorem Trails.nil : Trails [] := ⟨by simp, by simp⟩

theorem splitTrailing_trails (lexemes : List Lexeme) : Trails (splitTrailing lexemes).1 := by
  induction lexemes with
  | nil => exact .nil
  | cons lexeme rest ih =>
      unfold splitTrailing
      split
      · rename_i htrivia
        split
        · refine ⟨by simpa using htrivia, fun front other behind heq hrule => ?_⟩
          cases front with
          | nil => simp_all
          | cons => simp at heq
        · rename_i hnewline
          refine ⟨List.forall_mem_cons.mpr ⟨htrivia, ih.trivia⟩, ?_⟩
          intro front other behind heq hrule
          cases front with
          | nil =>
              obtain ⟨rfl, -⟩ := List.cons.inj heq
              exact absurd hrule hnewline
          | cons first front => exact ih.newline front other behind (List.cons.inj heq).2 hrule
      · exact .nil

theorem length_splitTrailing_le (lexemes : List Lexeme) :
    (splitTrailing lexemes).2.length ≤ lexemes.length := by
  have hlength := congrArg List.length (splitTrailing_append lexemes)
  rw [List.length_append] at hlength
  omega

structure MadeOf (token : Token) (lexeme : Lexeme) : Prop where
  kind : token.kind = lexeme.kind
  contextual : token.contextual = contextual lexeme
  span : token.span = lexeme.span

structure Wraps (token : Token) (offset : Nat) (before : List Lexeme) (lexeme : Lexeme)
    (behind : List Lexeme) : Prop where
  made : MadeOf token lexeme
  leading : token.leading = runSpan offset before
  trailing : token.trailing = runSpan lexeme.span.stop behind

theorem trivia_or_own (lexemes : List Lexeme) :
    (∀ lexeme ∈ lexemes, lexeme.isTrivia = true) ∨
      ∃ before lexeme rest, lexemes = before ++ lexeme :: rest ∧
        (∀ other ∈ before, other.isTrivia = true) ∧ lexeme.isTrivia = false := by
  induction lexemes with
  | nil => exact .inl (by simp)
  | cons first others ih =>
      cases htrivia : first.isTrivia with
      | false => exact .inr ⟨[], first, others, rfl, by simp, htrivia⟩
      | true =>
          rcases ih with hall | ⟨before, lexeme, rest, rfl, hbefore, hown⟩
          · exact .inl (List.forall_mem_cons.mpr ⟨htrivia, hall⟩)
          · exact .inr ⟨first :: before, lexeme, rest, rfl,
              List.forall_mem_cons.mpr ⟨htrivia, hbefore⟩, hown⟩

theorem next_eq {lexer : Lexer} {before rest : List Lexeme} {lexeme : Lexeme}
    (hpending : lexer.pending = before ++ lexeme :: rest)
    (hbefore : ∀ other ∈ before, other.isTrivia = true) (hown : lexeme.isTrivia = false) :
    let leading := runSpan lexer.offset before
    let behind := (splitTrailing rest).1
    let trailing := runSpan lexeme.span.stop behind
    lexer.next =
      ({ kind := lexeme.kind, contextual := contextual lexeme, span := lexeme.span,
         flags := lexer.flags leading trailing
          (before.any (·.breaksLine) || (lexer.started && lexer.atLineStart)),
         leading, trailing },
       { lexer with
          pending := (splitTrailing rest).2, offset := trailing.stop,
          atLineStart := behind.any (·.breaksLine), touching := trailing.isEmpty, started := true,
          reported := report (lexeme :: behind) (report before lexer.reported) }) := by
  have hspan : lexer.pending.span (·.isTrivia) = (before, lexeme :: rest) := by
    rw [hpending, List.span_eq_takeWhile_dropWhile, List.takeWhile_append_of_pos hbefore,
      List.dropWhile_append_of_pos hbefore]
    simp [hown]
  unfold next
  simp only [hspan]

theorem next_eq_eof {lexer : Lexer} (hpending : ∀ lexeme ∈ lexer.pending, lexeme.isTrivia = true) :
    let leading := runSpan lexer.offset lexer.pending
    let stop := Span.point lexer.textEnd
    lexer.next =
      (if lexer.finished then .bare .eof stop
        else { Token.bare .eof stop with
          leading
          flags := lexer.flags leading stop
            (lexer.pending.any (·.breaksLine) || (lexer.started && lexer.atLineStart)) },
       { lexer with
          pending := [], offset := leading.stop, finished := true,
          reported := report lexer.pending lexer.reported }) := by
  have hspan : lexer.pending.span (·.isTrivia) = (lexer.pending, []) := by
    rw [List.span_eq_takeWhile_dropWhile, List.takeWhile_eq_self_iff.mpr hpending,
      List.dropWhile_eq_nil_iff.mpr hpending]
  unfold next
  simp only [hspan]
  cases hfinished : lexer.finished with
  | true => simp
  | false => simp [flags]

theorem next_token {lexer : Lexer} {before rest : List Lexeme} {lexeme : Lexeme}
    (hpending : lexer.pending = before ++ lexeme :: rest)
    (hbefore : ∀ other ∈ before, other.isTrivia = true) (hlexeme : lexeme.isTrivia = false) :
    Wraps lexer.next.1 lexer.offset before lexeme (splitTrailing rest).1 ∧
      lexer.next.2.pending = (splitTrailing rest).2 ∧
      lexer.next.2.offset = lexer.next.1.trailing.stop ∧
      lexer.next.2.finished = lexer.finished ∧ lexer.next.2.textEnd = lexer.textEnd ∧
      lexer.next.2.reported = report (lexeme :: (splitTrailing rest).1)
        (report before lexer.reported) ∧
      lexer.next.1.flags.adjacent =
        (lexer.started && lexer.touching && lexer.next.1.leading.isEmpty) ∧
      (lexer.next.2.started && lexer.next.2.touching) = lexer.next.1.trailing.isEmpty := by
  rw [next_eq hpending hbefore hlexeme]
  exact ⟨⟨⟨rfl, rfl, rfl⟩, rfl, rfl⟩, by simp [flags]⟩

theorem next_eof {lexer : Lexer} (hpending : ∀ lexeme ∈ lexer.pending, lexeme.isTrivia = true)
    (hunfinished : lexer.finished = false) :
    lexer.next.1.kind = .eof ∧ lexer.next.1.leading = runSpan lexer.offset lexer.pending ∧
      lexer.next.1.span = .point lexer.textEnd ∧ lexer.next.1.trailing = .point lexer.textEnd ∧
      lexer.next.2.reported = report lexer.pending lexer.reported ∧
      lexer.next.1.flags.adjacent =
        (lexer.started && lexer.touching && lexer.next.1.leading.isEmpty) := by
  rw [next_eq_eof hpending, hunfinished]
  exact ⟨rfl, rfl, rfl, rfl, rfl, rfl⟩

/-- How tokens take the lexemes that begin at an offset, up to the end of the text, given
whether a token ends there. -/
inductive Attaches (textEnd : Nat) : Bool → Nat → List Lexeme → List Token → Prop where
  | eof {touching : Bool} {offset : Nat} {before : List Lexeme} {token : Token}
      (trivia : ∀ lexeme ∈ before, lexeme.isTrivia = true)
      (kind : token.kind = .eof) (leading : token.leading = runSpan offset before)
      (span : token.span = .point textEnd) (trailing : token.trailing = .point textEnd)
      (adjacent : token.flags.adjacent = (touching && token.leading.isEmpty)) :
      Attaches textEnd touching offset before [token]
  | token {touching : Bool} {offset : Nat} {before behind pending : List Lexeme}
      {lexeme : Lexeme} {token : Token} {tokens : List Token}
      (trivia : ∀ lexeme ∈ before, lexeme.isTrivia = true) (own : lexeme.isTrivia = false)
      (trails : Trails behind) (wraps : Wraps token offset before lexeme behind)
      (adjacent : token.flags.adjacent = (touching && token.leading.isEmpty))
      (rest : Attaches textEnd token.trailing.isEmpty token.trailing.stop pending tokens) :
      Attaches textEnd touching offset (before ++ lexeme :: (behind ++ pending))
        (token :: tokens)

theorem drain_attaches {fuel : Nat} (lexer : Lexer) (tokens : TokenList)
    (hkinds : ∀ lexeme ∈ lexer.pending, lexeme.kind ≠ .eof)
    (hunfinished : lexer.finished = false) (hfuel : lexer.pending.length < fuel) :
    ∃ more, (lexer.drain fuel tokens).tokens.tokens.toList = tokens.tokens.toList ++ more ∧
      Attaches lexer.textEnd (lexer.started && lexer.touching) lexer.offset lexer.pending more ∧
      (lexer.drain fuel tokens).diagnostics =
        lexer.diagnostics ++ lexer.pending.filterMap (·.diagnostic?) := by
  induction fuel generalizing lexer tokens with
  | zero => omega
  | succ fuel ih =>
      rw [drain_succ]
      rcases trivia_or_own lexer.pending with hall | ⟨before, lexeme, rest, hsplit, hbefore, hown⟩
      · obtain ⟨hkind, hleading, hspan, htrailing, hreported, hadjacent⟩ :=
          next_eof hall hunfinished
        rw [if_pos hkind]
        refine ⟨[lexer.next.1], by simp [TokenList.push], ?_, ?_⟩
        · exact .eof hall hkind hleading hspan htrailing hadjacent
        · simp [diagnostics, hreported, report]
      · have hlexeme : lexeme ∈ lexer.pending := by simp [hsplit]
        obtain ⟨hwraps, hpending, hoffset, hfinished, hend, hreported, hadjacent, htouching⟩ :=
          next_token hsplit hbefore hown
        have hbehind := splitTrailing_append rest
        have hkind : lexer.next.1.kind ≠ .eof := by
          rw [hwraps.made.kind]
          exact hkinds lexeme hlexeme
        have hlength : lexer.next.2.pending.length < fuel := by
          have hlength := length_splitTrailing_le rest
          rw [hsplit, List.length_append, List.length_cons] at hfuel
          rw [hpending]
          omega
        obtain ⟨more, htokens, hmore, hdiagnostics⟩ :=
          ih lexer.next.2 (tokens.push lexer.next.1)
            (fun other hmem => hkinds other (by
              rw [hsplit, ← hbehind, ← hpending]
              simp [hmem]))
            (hfinished.trans hunfinished) hlength
        rw [if_neg hkind]
        refine ⟨lexer.next.1 :: more, ?_, ?_, ?_⟩
        · rw [htokens]
          simp [TokenList.push]
        · rw [hend, hoffset, hpending, htouching] at hmore
          rw [hsplit, ← hbehind]
          exact .token hbefore hown (splitTrailing_trails rest) hwraps hadjacent hmore
        · rw [hdiagnostics, hpending, hsplit]
          conv => rhs; rw [← hbehind]
          rw [← List.cons_append, ← List.append_assoc, List.filterMap_append]
          simp [diagnostics, hreported, report]

namespace Attaches

variable {textEnd offset : Nat} {touching : Bool} {lexemes : List Lexeme}
  {tokens : List Token}

theorem cut (h : Attaches textEnd touching offset lexemes tokens) {cs : List Char}
    (hcut : Span.Cut (lexemes.map (·.span)) offset cs)
    (hend : textEnd = offset + byteLength cs) :
    Span.Cut (tokens.flatMap (·.spans)) offset cs := by
  induction h generalizing cs with
  | eof trivia kind leading span trailing _ =>
      rw [runSpan_of_cut hcut] at leading
      simp only [List.flatMap_singleton, Token.spans, leading, span, trailing]
      refine ⟨cs, [], by simp, rfl, [], [], rfl, ?_, [], [], rfl, ?_, rfl⟩
      · simp [Span.point, hend, byteLength]
      · simp [Span.point, byteLength]
  | @token touching offset before behind pending lexeme token tokens trivia own trails wraps _ rest
      ih =>
      rw [List.map_append] at hcut
      obtain ⟨front, _, rfl, hfront, text, _, rfl, hspan, hbehind⟩ := Span.cut_append.mp hcut
      change lexeme.span = _ at hspan
      rw [List.map_append] at hbehind
      obtain ⟨back, last, rfl, hback, hlast⟩ := Span.cut_append.mp hbehind
      have hleading := wraps.leading
      have htrailing := wraps.trailing
      rw [runSpan_of_cut hfront] at hleading
      rw [runSpan_of_cut hback] at htrailing
      simp only [byteLength_append] at hend
      rw [List.flatMap_cons]
      refine ⟨front, text ++ (back ++ last), rfl, hleading, text, back ++ last, rfl, ?_, back,
        last, rfl, ?_, ?_⟩
      · rw [wraps.made.span, hspan, hleading]
      · rw [htrailing, wraps.made.span]
      · refine ih ?_ ?_
        · rw [htrailing]
          exact hlast
        · rw [htrailing]
          simp only [hspan]
          omega

theorem made (h : Attaches textEnd touching offset lexemes tokens) :
    ∃ front last, tokens = front ++ [last] ∧
      List.Forall₂ MadeOf front (lexemes.filter fun lexeme => !lexeme.isTrivia) ∧
      last.kind = .eof ∧ last.span = .point textEnd ∧ last.trailing = .point textEnd := by
  induction h with
  | @eof touching offset before token trivia kind leading span trailing _ =>
      refine ⟨[], token, rfl, ?_, kind, span, trailing⟩
      have hnone : before.filter (fun lexeme => !lexeme.isTrivia) = [] := by
        rw [List.filter_eq_nil_iff]
        intro lexeme hmem
        simp [trivia lexeme hmem]
      rw [hnone]
      exact .nil
  | @token touching offset before behind pending lexeme token tokens trivia own trails wraps _ rest
      ih =>
      obtain ⟨front, last, rfl, hmade, hlast⟩ := ih
      refine ⟨token :: front, last, rfl, ?_, hlast⟩
      have hnone : ∀ run : List Lexeme, (∀ other ∈ run, other.isTrivia = true) →
          run.filter (fun other => !other.isTrivia) = [] := by
        intro run htrivia
        rw [List.filter_eq_nil_iff]
        intro other hmem
        simp [htrivia other hmem]
      rw [List.filter_append, List.filter_cons_of_pos (by simp [own]), List.filter_append,
        hnone before trivia, hnone behind trails.trivia]
      exact .cons wraps.made hmade

theorem trailing (h : Attaches textEnd touching offset lexemes tokens) :
    ∀ token ∈ tokens, token.trailing = .point textEnd ∨
      ∃ left own behind right, lexemes = left ++ own :: (behind ++ right) ∧ Trails behind ∧
        token.trailing = runSpan own.span.stop behind := by
  induction h with
  | eof trivia kind leading span trailing _ => simp [trailing]
  | @token touching offset before behind pending lexeme token tokens trivia own trails wraps _ rest
      ih =>
      refine List.forall_mem_cons.mpr ⟨.inr ?_, fun other hmem => (ih other hmem).imp_right ?_⟩
      · exact ⟨before, lexeme, behind, pending, rfl, trails, wraps.trailing⟩
      · rintro ⟨left, inner, trail, right, rfl, htrail, htrailing⟩
        refine ⟨before ++ lexeme :: (behind ++ left), inner, trail, right, ?_, htrail, htrailing⟩
        simp

end Attaches
end Lexer

/-! ## Whole texts -/

theorem lex_attaches (text : String) :
    Lexer.Attaches text.utf8ByteSize false 0 (Lexeme.ofText text)
      (lex text).tokens.tokens.toList := by
  obtain ⟨more, htokens, hmore, -⟩ :=
    Lexer.drain_attaches (.ofText text) ⟨#[]⟩ (Lexeme.ofText_cut text).2 rfl (Nat.lt_succ_self _)
  unfold lex
  rw [htokens]
  exact hmore

theorem lex_diagnostics (text : String) :
    (lex text).diagnostics = (Lexeme.ofText text).filterMap (·.diagnostic?) := by
  obtain ⟨more, -, -, hdiagnostics⟩ :=
    Lexer.drain_attaches (.ofText text) ⟨#[]⟩ (Lexeme.ofText_cut text).2 rfl (Nat.lt_succ_self _)
  unfold lex
  rw [hdiagnostics]
  rfl

theorem lex_spans_cut (text : String) :
    Span.Cut ((lex text).tokens.tokens.toList.flatMap (·.spans)) 0 text.toList := by
  have hend : text.utf8ByteSize = 0 + byteLength text.toList := by
    rw [Nat.zero_add, Lexeme.byteLength_toList]
  have hattaches := lex_attaches text
  generalize (lex text).tokens.tokens.toList = tokens at hattaches ⊢
  exact hattaches.cut (Lexeme.ofText_cut text).1 hend

theorem Span.Cut.fullSpans {tokens : List Token} {offset : Nat} {cs : List Char}
    (h : Cut (tokens.flatMap (·.spans)) offset cs) : Cut (tokens.map (·.fullSpan)) offset cs := by
  induction tokens generalizing offset cs with
  | nil => exact h
  | cons token rest ih =>
      obtain ⟨front, _, rfl, hleading, own, _, rfl, hspan, back, last, rfl, htrailing, hrest⟩ := h
      refine ⟨front ++ (own ++ back), last, by simp, ?_, ih hrest⟩
      simp [Token.fullSpan, hleading, htrailing, hspan, byteLength_append, Nat.add_assoc]

/-- The tokens of a text, the last of which is the end of file. -/
theorem lex_made (text : String) :
    ∃ front last, (lex text).tokens.tokens.toList = front ++ [last] ∧
      List.Forall₂ Lexer.MadeOf front
        ((Lexeme.ofText text).filter fun lexeme => !lexeme.isTrivia) ∧
      (∀ token ∈ front, token.kind ≠ .eof ∧ token.span.start < token.span.stop) ∧
      last.kind = .eof ∧ last.span = .point text.utf8ByteSize ∧
      last.trailing = .point text.utf8ByteSize := by
  obtain ⟨front, last, htokens, hmade, hlast⟩ := (lex_attaches text).made
  refine ⟨front, last, htokens, hmade, fun token hmem => ?_, hlast⟩
  obtain ⟨index, hindex, rfl⟩ := List.mem_iff_getElem.mp hmem
  have hof := hmade.get hindex (hmade.length_eq ▸ hindex)
  have hlexeme := List.mem_of_mem_filter (List.get_mem _ ⟨index, hmade.length_eq ▸ hindex⟩)
  simp only [List.get_eq_getElem] at hof hlexeme
  rw [hof.kind, hof.span]
  exact ⟨(Lexeme.ofText_cut text).2 _ hlexeme, Lexeme.ofText_nonempty hlexeme⟩

/-- The full spans of the tokens of a text cut it, and only the last token is an end of
file. -/
theorem lex_cut (text : String) :
    ∃ front last, (lex text).tokens.tokens.toList = front ++ [last] ∧
      (∀ token ∈ front, token.kind ≠ .eof) ∧ last.kind = .eof ∧
      Span.Cut ((front ++ [last]).map (·.fullSpan)) 0 text.toList := by
  obtain ⟨front, last, htokens, -, hfront, hlast, -⟩ := lex_made text
  refine ⟨front, last, htokens, fun token hmem => (hfront token hmem).1, hlast, ?_⟩
  have hcut := lex_spans_cut text
  rw [htokens] at hcut
  exact hcut.fullSpans

structure Token.Joined (token : Token) : Prop where
  leading : token.leading.stop = token.span.start
  trailing : token.span.stop = token.trailing.start

theorem Span.Cut.joined {tokens : List Token} {offset : Nat} {cs : List Char}
    (h : Cut (tokens.flatMap (·.spans)) offset cs) :
    (∀ first ∈ tokens.head?, first.leading.start = offset) ∧
      tokens.IsChain (fun token next => next.leading.start = token.trailing.stop) ∧
      ∀ token ∈ tokens, token.Joined := by
  induction tokens generalizing offset cs with
  | nil => simp
  | cons token rest ih =>
      obtain ⟨front, _, rfl, hleading, own, _, rfl, hspan, back, last, rfl, htrailing, hrest⟩ := h
      obtain ⟨hhead, hchain, hjoined⟩ := ih hrest
      refine ⟨?_, List.isChain_cons.mpr ⟨hhead, hchain⟩, List.forall_mem_cons.mpr ⟨?_, hjoined⟩⟩
      · intro first hfirst
        obtain rfl : token = first := by simpa using hfirst
        rw [hleading]
      · exact ⟨by rw [hspan], by rw [htrailing]⟩

theorem newline_ends_trailing {text : String} {token : Token} {lexeme : Lexeme}
    (htoken : token ∈ (lex text).tokens.tokens.toList) (hlexeme : lexeme ∈ Lexeme.ofText text)
    (hrule : lexeme.rule = .newline) (hstart : token.trailing.start ≤ lexeme.span.start)
    (hstop : lexeme.span.stop ≤ token.trailing.stop) :
    lexeme.span.stop = token.trailing.stop := by
  have hnonempty := Lexeme.ofText_nonempty hlexeme
  rcases (lex_attaches text).trailing token htoken with
    hpoint | ⟨left, own, behind, right, heq, htrails, htrailing⟩
  · rw [hpoint, Span.point] at hstart hstop
    simp only at hstart hstop
    omega
  · have hcut := (Lexeme.ofText_cut text).1
    have hspans : (behind ++ right).map (·.span) = behind.map (·.span) ++ right.map (·.span) :=
      List.map_append
    rw [heq, ← List.singleton_append, ← List.append_assoc, List.map_append, hspans] at hcut
    obtain ⟨front, _, hfront, hleft, hbehind⟩ := Span.cut_append.mp hcut
    obtain ⟨trail, last, rfl, htrail, hright⟩ := Span.cut_append.mp hbehind
    have hown : own.span.stop = 0 + byteLength front := by simpa using hleft.last_stop
    rw [hown, Lexer.runSpan_of_cut htrail] at htrailing
    rw [htrailing] at hstart hstop ⊢
    simp only at hstart hstop ⊢
    rw [heq, ← List.singleton_append, ← List.append_assoc, List.mem_append,
      List.mem_append (s := behind)] at hlexeme
    -- Outside the trivia every lexeme ends too early or begins too late.
    rcases hlexeme with hmem | hmem | hmem
    · obtain ⟨before, text, rest, hsplit, hspan⟩ := hleft.place (List.mem_map_of_mem hmem)
      have hlength := congrArg byteLength hsplit
      rw [byteLength_append, byteLength_append] at hlength
      rw [hspan] at hstart hnonempty
      simp only at hstart hnonempty
      omega
    · obtain ⟨before, rest, rfl⟩ := List.append_of_mem hmem
      obtain rfl := htrails.newline before lexeme rest rfl hrule
      simpa using htrail.last_stop
    · obtain ⟨before, text, rest, -, hspan⟩ := hright.place (List.mem_map_of_mem hmem)
      rw [hspan] at hstop hnonempty
      simp only at hstop hnonempty
      omega

/-- The tokens tile a text.  Only the last one is an end of file: it stands at the end and has
nothing behind it.  Every other one has a text of its own.  The leading trivia of the first
begins at 0 and that of the others where the trailing trivia in front ends; the three spans
of each follow each other, all ends are character boundaries, and trailing trivia ends with
its first newline. -/
theorem lex_tiles (text : String) :
    ∃ front last, (lex text).tokens.tokens.toList = front ++ [last] ∧
      (∀ token ∈ front, token.kind ≠ .eof ∧ token.span.start < token.span.stop) ∧
      last.kind = .eof ∧ last.span = .point text.utf8ByteSize ∧
      last.trailing = .point text.utf8ByteSize ∧
      (∀ first ∈ (front ++ [last]).head?, first.leading.start = 0) ∧
      (front ++ [last]).IsChain (fun token next => next.leading.start = token.trailing.stop) ∧
      (∀ token ∈ front ++ [last], token.Joined ∧ (∀ span ∈ token.spans, span.Within text) ∧
        ∀ lexeme ∈ Lexeme.ofText text, lexeme.rule = .newline →
          token.trailing.start ≤ lexeme.span.start → lexeme.span.stop ≤ token.trailing.stop →
          lexeme.span.stop = token.trailing.stop) ∧
      String.join ((front ++ [last]).map (·.fullSpan.slice text)) = text := by
  obtain ⟨front, last, htokens, -, hfront, hkind, hspan, htrailing⟩ := lex_made text
  have hcut := lex_spans_cut text
  have hnewline := @newline_ends_trailing text
  rw [htokens] at hcut hnewline
  obtain ⟨hfirst, hchain, hjoined⟩ := hcut.joined
  refine ⟨front, last, htokens, hfront, hkind, hspan, htrailing, hfirst, hchain,
    fun token hmem => ⟨hjoined token hmem, fun span hspan => ?_, fun lexeme hlexeme => ?_⟩, ?_⟩
  · exact hcut.within (List.mem_flatMap.mpr ⟨token, hmem, hspan⟩)
  · exact hnewline hmem hlexeme
  · have hjoin := hcut.fullSpans.join_slices
    rwa [List.map_map] at hjoin

end TolerantSyntax
