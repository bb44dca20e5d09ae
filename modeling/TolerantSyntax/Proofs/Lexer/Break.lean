import TolerantSyntax.Proofs.Lexer.Settled

/-!
# Scanning before a break

Before a blank, a newline or the end of the text every rule takes what it took before any
other text, so that a lexeme scanned there is the same.  Only a run of letters that stood
before the first byte of a letter may turn from an identifier into the keyword that it spells.
-/

namespace TolerantSyntax.LexemeRule

variable {c : Char} {text rest other : List Char}

/-- What may follow a literal: anything when it is closed, else the end of its line. -/
def LiteralEnds (closed : Bool) (other : List Char) : Prop :=
  closed = true ∨ other = [] ∨ ∃ behind, other = '\n' :: behind

theorem literalBody_stop {quote : Char} {closed : Bool} (hquote : quote ≠ '\n')
    (hother : LiteralEnds closed other) (h : closed = false) :
    literalBody quote other = (0, closed) := by
  rcases hother with hclosed | rfl | ⟨behind, rfl⟩
  · exact absurd (h.symm.trans hclosed) Bool.false_ne_true
  · rw [h]
    rfl
  · rw [h, literalBody.eq_def]
    simp [hquote.symm]

theorem literalBody_before {quote : Char} (hquote : quote ≠ '\n') {closed : Bool}
    (hother : LiteralEnds closed other) {cs : List Char}
    (h : literalBody quote cs = (text.length, closed)) (hcs : cs = text ++ rest) :
    literalBody quote (text ++ other) = (text.length, closed) := by
  have hstop := literalBody_stop hquote hother
  fun_induction literalBody quote cs generalizing text with
  | case1 =>
      obtain rfl : text = [] := (List.append_eq_nil_iff.mp hcs.symm).1
      exact hstop (Prod.mk.inj h).2.symm
  | case2 cs =>
      cases text with
      | nil => cases h
      | cons d text =>
          obtain ⟨rfl, -⟩ := List.cons.inj hcs
          obtain ⟨hlength, rfl⟩ := Prod.mk.inj h
          obtain rfl : text = [] := by simpa using hlength.symm
          rw [List.cons_append, literalBody.eq_def]
          simp
  | case3 cs hne =>
      cases text with
      | nil => exact hstop (Prod.mk.inj h).2.symm
      | cons d text => cases h
  | case4 =>
      cases text with
      | nil => exact hstop (Prod.mk.inj h).2.symm
      | cons d text => cases h
  | case5 d rest =>
      cases text with
      | nil => exact hstop (Prod.mk.inj h).2.symm
      | cons d text => cases h
  | case6 d cs hd n closed' hrec hquote' hnewline ih =>
      match text with
      | [] => cases h
      | [_] => simp at h
      | c :: e :: text =>
          obtain ⟨rfl, htail⟩ := List.cons.inj hcs
          obtain ⟨rfl, rfl⟩ := List.cons.inj htail
          obtain ⟨hlength, rfl⟩ := Prod.mk.inj h
          have hbody := ih (by rw [hrec]; simpa using hlength) rfl
          rw [List.cons_append, List.cons_append, literalBody.eq_def]
          simp [hd, hquote', hbody]
  | case7 c cs hquote' hnewline hescape n closed' hrec ih =>
      cases text with
      | nil => cases h
      | cons d text =>
          obtain ⟨rfl, rfl⟩ := List.cons.inj hcs
          obtain ⟨hlength, rfl⟩ := Prod.mk.inj h
          have hbody := ih (by rw [hrec]; simpa using hlength) rfl
          rw [List.cons_append, literalBody.eq_def]
          simp [hquote', hnewline, hescape, hbody]

theorem verbatimBody_unclosed {cs : List Char} (h : (verbatimBody cs).2 = false) :
    (verbatimBody cs).1 = cs.length := by
  fun_induction verbatimBody cs <;> simp_all

theorem verbatimBody_quote (hother : Breaks other) : verbatimBody ('"' :: other) = (1, true) := by
  cases hother <;> rfl

theorem verbatimBody_cons (hc : c ≠ '"') (cs : List Char) :
    verbatimBody (c :: cs) = ((verbatimBody cs).1 + 1, (verbatimBody cs).2) := by
  rw [verbatimBody.eq_def]
  split <;> simp_all

theorem verbatimBody_closed (hother : Breaks other) {cs : List Char}
    (h : verbatimBody cs = (text.length, true)) (hcs : cs = text ++ rest) :
    verbatimBody (text ++ other) = (text.length, true) := by
  fun_induction verbatimBody cs generalizing text with
  | case1 cs n closed hrec ih =>
      match text with
      | [] => cases h
      | [_] => simp at h
      | c :: d :: text =>
          obtain ⟨rfl, htail⟩ := List.cons.inj hcs
          obtain ⟨rfl, rfl⟩ := List.cons.inj htail
          obtain ⟨hlength, rfl⟩ := Prod.mk.inj h
          have hbody := ih (by rw [hrec]; simpa using hlength) rfl
          rw [List.cons_append, List.cons_append, verbatimBody]
          simp [hbody]
  | case2 cs =>
      cases text with
      | nil => cases h
      | cons c text =>
          obtain ⟨rfl, -⟩ := List.cons.inj hcs
          obtain rfl : text = [] := by simpa using (Prod.mk.inj h).1.symm
          exact verbatimBody_quote hother
  | case3 c cs hpair hquote n closed hrec ih =>
      cases text with
      | nil => cases h
      | cons d text =>
          obtain ⟨rfl, rfl⟩ := List.cons.inj hcs
          obtain ⟨hlength, rfl⟩ := Prod.mk.inj h
          have hbody := ih (by rw [hrec]; simpa using hlength) rfl
          have hplain : c ≠ '"' := by
            rintro rfl
            exact hquote rfl
          rw [List.cons_append, verbatimBody_cons hplain, hbody, List.length_cons]
  | case4 => simp at h

/-! ## Names and punctuation -/

theorem word_eq (h : runLength isIdentifierPart (text ++ rest) = text.length) :
    word (text ++ rest) = (.token (wordKind text rest), text.length) := by
  have hparts : (text ++ rest).takeWhile isIdentifierPart = text := by
    have hfront := List.takeWhile_prefix isIdentifierPart (l := text ++ rest)
    rw [List.prefix_iff_eq_take] at hfront
    rw [hfront, show (List.takeWhile isIdentifierPart (text ++ rest)).length = text.length from h,
      List.take_left]
  have hbehind : (text ++ rest).dropWhile isIdentifierPart = rest := by
    have hwhole := List.takeWhile_append_dropWhile (p := isIdentifierPart) (l := text ++ rest)
    rw [hparts] at hwhole
    exact List.append_cancel_left hwhole
  simp only [word, hparts, hbehind]

theorem wordKind_of_breaks (text : List Char) (hother : Breaks other) :
    wordKind text other = (TokenKind.keyword? (String.ofList text)).getD .identifier := by
  unfold wordKind
  cases TokenKind.keyword? (String.ofList text) with
  | none => rfl
  | some keyword => cases hother <;> rfl

theorem keyword?_at (text : List Char) :
    TokenKind.keyword? (String.ofList ('@' :: text)) = none := by
  have hheads : ∀ kind ∈ TokenKind.keywords,
      kind.fixedText?.all (fun fixed => fixed.toList.head? != some '@') = true := by decide
  refine List.find?_eq_none.mpr fun kind hmem heq => ?_
  have hhead := hheads kind hmem
  rw [beq_iff_eq.mp heq] at hhead
  simp at hhead

/-- What a rule becomes before a break: an identifier with the text of a keyword is that
keyword. -/
def settle (rule : LexemeRule) (text : List Char) : LexemeRule :=
  if rule = .token .identifier then
    .token ((TokenKind.keyword? (String.ofList text)).getD .identifier)
  else rule

theorem settle_token {kind : TokenKind} (h : kind ≠ .identifier) (text : List Char) :
    settle (.token kind) text = .token kind := by simp [settle, h]

theorem settle_wordKind (text rest : List Char) :
    settle (.token (wordKind text rest)) text =
      .token ((TokenKind.keyword? (String.ofList text)).getD .identifier) := by
  unfold settle
  split
  · rfl
  · rename_i hword
    unfold wordKind at hword ⊢
    cases h : TokenKind.keyword? (String.ofList text) with
    | none => simp [h] at hword
    | some keyword =>
        simp only [h] at hword ⊢
        split at hword
        · exact absurd rfl hword
        · rename_i hhead
          rw [if_neg hhead]
          rfl

theorem head_mem_punctuationHeads {kind : TokenKind} (hkind : kind.isKeyword = false)
    (htext : kind.fixedText? = some (String.ofList (c :: text))) : c ∈ punctuationHeads := by
  have hheads : ∀ kind ∈ TokenKind.all, kind.isKeyword = false →
      kind.fixedText?.all (fun fixed =>
        fixed.toList.head?.all punctuationHeads.contains) = true := by
    decide +kernel
  have hhead := hheads kind kind.mem_all hkind
  rw [htext] at hhead
  simpa using hhead

theorem punctuation?_before_break {kind : TokenKind}
    (htext : kind.fixedText? = some (String.ofList text)) (hkind : kind.isKeyword = false)
    (hother : Breaks other) : punctuation? (text ++ other) = some (kind, text.length) := by
  obtain rfl : text = (kind.fixedText?.getD "").toList := by simp [htext]
  cases kind <;> first
    | exact absurd hkind (by decide)
    | simp only [TokenKind.fixedText?, reduceCtorEq] at htext; done
    | cases hother <;> rfl

/-! ## Lexemes -/

/-- What may follow a lexeme that is no trivia so that its rule goes no further. -/
def StopsAt : LexemeRule → List Char → Prop
  | .token _, other | .byteOrderMark, other | .unmatched, other => Breaks other
  | .unclosed _, other => other = [] ∨ ∃ behind, other = '\n' :: behind
  | .unclosedVerbatim, other => other = []
  | .whitespace, _ | .newline, _ | .lineComment, _ | .blockComment _, _ => False

theorem scan_name (hblank : isWhitespace c = false) (hdigit : c.isDigit = false)
    (hstart : isIdentifierStart c = true) (rest : List Char) :
    scan c rest = word (c :: rest) := by
  unfold scan
  rw [if_neg (by simp [hblank]), if_neg (by simp [hdigit]), if_pos hstart]

theorem scan_newline (rest : List Char) : scan '\n' rest = (.newline, 1) := by
  unfold scan
  rw [if_neg (by decide), if_neg (by decide), if_neg (by decide)]
  rfl

theorem scan_mark (rest : List Char) : scan '\ufeff' rest = (.byteOrderMark, 1) := by
  unfold scan
  rw [if_neg (by decide), if_neg (by decide), if_neg (by decide +kernel)]
  rfl

theorem scan_slash (h : rest.head? ≠ some '/') (h' : rest.head? ≠ some '*') :
    scan '/' rest = punctuationOrUnmatched ('/' :: rest) := by
  cases rest with
  | nil => rfl
  | cons c rest =>
      have hslash : c ≠ '/' := by simpa using h
      have hstar : c ≠ '*' := by simpa using h'
      unfold scan
      rw [if_neg (by decide), if_neg (by decide), if_neg (by decide)]
      split <;> simp_all

theorem scan_point (rest : List Char) :
    scan '.' rest =
      if startsWithDigit rest then (.token .realLiteral, 1 + fraction rest)
      else (.token .dot, 1) := rfl

theorem scan_at (h : rest.head? ≠ some '"') :
    scan '@' rest =
      if startsIdentifier rest then (.token .identifier, 1 + runLength isIdentifierPart rest)
      else (.unmatched, 1) := by
  cases rest with
  | nil => rfl
  | cons c rest =>
      have hquote : c ≠ '"' := by simpa using h
      unfold scan
      rw [if_neg (by decide), if_neg (by decide), if_neg (by decide)]
      split <;> simp_all

def isSpecial (c : Char) : Bool :=
  ['\n', '\ufeff', '/', '"', '\'', '@', '.'].contains c

theorem scan_symbol (hblank : isWhitespace c = false) (hdigit : c.isDigit = false)
    (hstart : isIdentifierStart c = false) (hspecial : isSpecial c = false) (rest : List Char) :
    scan c rest = punctuationOrUnmatched (c :: rest) := by
  unfold scan
  rw [if_neg (by simp [hblank]), if_neg (by simp [hdigit]), if_neg (by simp [hstart])]
  split <;> first | rfl | simp [isSpecial] at hspecial

theorem punctuationOrUnmatched_before_break {rule : LexemeRule}
    (h : punctuationOrUnmatched (c :: (text ++ rest)) = (rule, text.length + 1))
    (hother : StopsAt rule other) :
    punctuationOrUnmatched (c :: (text ++ other)) = (settle rule (c :: text), text.length + 1) := by
  unfold punctuationOrUnmatched at h ⊢
  cases hfound : punctuation? (c :: (text ++ rest)) with
  | some found =>
      obtain ⟨kind, n⟩ := found
      rw [hfound] at h
      obtain ⟨rfl, rfl⟩ := Prod.mk.inj h
      obtain ⟨htext, hkeyword, -, -⟩ := punctuation?_at hfound
      rw [← List.cons_append, ← List.length_cons (a := c), List.take_left] at htext
      have hbefore := punctuation?_before_break htext hkeyword hother
      rw [List.cons_append, List.length_cons] at hbefore
      have hname : kind ≠ .identifier := by
        rintro rfl
        simp [TokenKind.fixedText?] at htext
      rw [hbefore, settle_token hname]
  | none =>
      rw [hfound] at h
      obtain ⟨rfl, hlength⟩ := Prod.mk.inj h
      obtain rfl : text = [] := by simpa using hlength
      cases hfound' : punctuation? (c :: other) with
      | none =>
          rw [List.nil_append, hfound']
          rfl
      | some found =>
          obtain ⟨kind, n⟩ := found
          obtain ⟨htext, hkeyword, hpos, -⟩ := punctuation?_at hfound'
          obtain ⟨n, rfl⟩ := Nat.exists_eq_succ_of_ne_zero (Nat.ne_of_gt hpos)
          exact absurd (head_mem_punctuationHeads hkeyword htext) (punctuation?_none hfound)

theorem numeral_before_break {rule : LexemeRule}
    (h : numeral (c :: (text ++ rest)) = (rule, text.length + 1)) (hother : StopsAt rule other) :
    numeral (c :: (text ++ other)) = (settle rule (c :: text), text.length + 1) := by
  obtain ⟨kind, hrule, hliteral⟩ := numeral_rule (c :: (text ++ rest))
  have hname : kind ≠ .identifier := by rcases hliteral with rfl | rfl <;> decide
  rw [h] at hrule
  obtain rfl : rule = .token kind := hrule
  rw [settle_token hname, ← h]
  have hle : (numeral (c :: text ++ rest)).2 ≤ (c :: text).length :=
    Nat.le_of_eq (congrArg Prod.snd h)
  exact numeral_settled.before_break hle hother

theorem word_before_break {rule : LexemeRule}
    (h : word (c :: (text ++ rest)) = (rule, text.length + 1)) (hother : StopsAt rule other) :
    word (c :: (text ++ other)) = (settle rule (c :: text), text.length + 1) := by
  have hlength : runLength isIdentifierPart (c :: text ++ rest) = (c :: text).length :=
    congrArg Prod.snd h
  rw [← List.cons_append, word_eq hlength] at h
  obtain ⟨rfl, -⟩ := Prod.mk.inj h
  have hparts : Settled id (runLength isIdentifierPart) := runLength_settled rfl rfl
  have hlength' := hparts.before_break (Nat.le_of_eq hlength) hother
  rw [← List.cons_append, word_eq (hlength'.trans hlength), settle_wordKind,
    wordKind_of_breaks _ hother]
  rfl

theorem literal_before_break {kind : TokenKind} {quote : Char} {rule : LexemeRule}
    (hquote : quote ≠ '\n') (hkind : kind ≠ .identifier)
    (h : literal kind quote (text ++ rest) = (rule, text.length + 1))
    (hother : StopsAt rule other) :
    literal kind quote (text ++ other) = (settle rule (quote :: text), text.length + 1) := by
  simp only [literal] at h
  obtain ⟨rfl, hlength⟩ := Prod.mk.inj h
  have hbody : literalBody quote (text ++ rest) =
      (text.length, (literalBody quote (text ++ rest)).2) := Prod.ext (Nat.succ.inj hlength) rfl
  cases hclosed : (literalBody quote (text ++ rest)).2 with
  | true =>
      rw [hclosed] at hbody
      have hbefore := literalBody_before hquote (.inl rfl : LiteralEnds true other) hbody rfl
      simp only [literal, hbefore, if_true, settle_token hkind]
  | false =>
      rw [hclosed] at hbody hother
      have hbefore := literalBody_before hquote (.inr hother) hbody rfl
      simp only [literal, hbefore, settle, reduceCtorEq, if_false, Bool.false_eq_true]

theorem StopsAt.breaks {rule : LexemeRule} (h : StopsAt rule other) : Breaks other := by
  cases rule with
  | token | byteOrderMark | unmatched => exact h
  | unclosed kind =>
      rcases h with rfl | ⟨behind, rfl⟩
      · exact .nil
      · exact .newline behind
  | unclosedVerbatim =>
      obtain rfl : other = [] := h
      exact .nil
  | whitespace | newline | lineComment | blockComment => exact h.elim

theorem Breaks.head?_ne (h : Breaks other) {d : Char} (hblank : d ≠ ' ') (hnewline : d ≠ '\n') :
    other.head? ≠ some d := by
  cases h with
  | nil => simp
  | blank rest => simpa using hblank.symm
  | newline rest => simpa using hnewline.symm

theorem head?_before_break {d : Char} (hother : Breaks other) (hblank : d ≠ ' ')
    (hnewline : d ≠ '\n') (h : (text ++ rest).head? ≠ some d) :
    (text ++ other).head? ≠ some d := by
  cases text with
  | nil => exact hother.head?_ne hblank hnewline
  | cons c text => exact h

theorem slash_before_break {rule : LexemeRule}
    (h : scan '/' (text ++ rest) = (rule, text.length + 1)) (hother : StopsAt rule other) :
    scan '/' (text ++ other) = (settle rule ('/' :: text), text.length + 1) := by
  have hcomment (behind : List Char) : (scan '/' ('/' :: behind)).1 = .lineComment := rfl
  have hblock (behind : List Char) :
      (scan '/' ('*' :: behind)).1 = .blockComment (commentBody behind).2 := rfl
  have hslash : (text ++ rest).head? ≠ some '/' := by
    intro hhead
    obtain ⟨behind, heq⟩ := List.head?_eq_some_iff.mp hhead
    rw [heq] at h
    have hrule := hcomment behind
    rw [h] at hrule
    subst hrule
    exact hother
  have hstar : (text ++ rest).head? ≠ some '*' := by
    intro hhead
    obtain ⟨behind, heq⟩ := List.head?_eq_some_iff.mp hhead
    rw [heq] at h
    have hrule := hblock behind
    rw [h] at hrule
    subst hrule
    exact hother
  rw [scan_slash hslash hstar] at h
  rw [scan_slash (head?_before_break hother.breaks (by decide) (by decide) hslash)
    (head?_before_break hother.breaks (by decide) (by decide) hstar)]
  exact punctuationOrUnmatched_before_break h hother

theorem verbatim_before_break {rule : LexemeRule}
    (h : verbatim (text ++ rest) = (rule, text.length + 2)) (hother : StopsAt rule other) :
    verbatim (text ++ other) = (settle rule ('@' :: '"' :: text), text.length + 2) := by
  simp only [verbatim] at h
  obtain ⟨rfl, hlength⟩ := Prod.mk.inj h
  have hbody : verbatimBody (text ++ rest) =
      (text.length, (verbatimBody (text ++ rest)).2) :=
    Prod.ext (Nat.add_right_cancel hlength) rfl
  cases hclosed : (verbatimBody (text ++ rest)).2 with
  | true =>
      rw [hclosed] at hbody hother
      have hbefore := verbatimBody_closed hother hbody rfl
      have hname : TokenKind.stringLiteral ≠ .identifier := by decide
      simp only [verbatim, hbefore, if_true, settle_token hname]
  | false =>
      -- An unclosed one took the whole rest of the text.
      have hwhole := verbatimBody_unclosed hclosed
      rw [hbody, List.length_append] at hwhole
      obtain rfl : rest = [] := List.eq_nil_of_length_eq_zero (by simpa using hwhole.symm)
      rw [hclosed] at hbody hother
      obtain rfl : other = [] := hother
      simp only [verbatim, hbody, settle, reduceCtorEq, if_false, Bool.false_eq_true]

theorem at_before_break {rule : LexemeRule}
    (h : scan '@' (text ++ rest) = (rule, text.length + 1)) (hother : StopsAt rule other) :
    scan '@' (text ++ other) = (settle rule ('@' :: text), text.length + 1) := by
  have hverbatim (behind : List Char) : scan '@' ('"' :: behind) = verbatim behind := rfl
  by_cases hquote : (text ++ rest).head? = some '"'
  · cases text with
    | nil =>
        obtain ⟨behind, rfl⟩ := List.head?_eq_some_iff.mp hquote
        rw [List.nil_append, hverbatim] at h
        have htwo : (verbatimBody behind).1 + 2 = 1 := congrArg Prod.snd h
        omega
    | cons d text =>
        obtain rfl : d = '"' := by simpa using hquote
        rw [List.cons_append, hverbatim] at h ⊢
        exact verbatim_before_break h hother
  · rw [scan_at hquote] at h
    rw [scan_at (head?_before_break hother.breaks (by decide) (by decide) hquote)]
    have hparts : Settled id (runLength isIdentifierPart) := runLength_settled rfl rfl
    split at h
    · rename_i hstart
      obtain ⟨rfl, hlength⟩ := Prod.mk.inj h
      have hfits : runLength isIdentifierPart (text ++ rest) ≤ text.length := by omega
      cases text with
      | nil =>
          rw [List.nil_append] at hfits hstart
          cases rest with
          | nil => exact absurd hstart (by simp [startsIdentifier])
          | cons d rest =>
              have hpart : isIdentifierPart d = true := by
                simp [isIdentifierPart, show isIdentifierStart d = true from hstart]
              have hpos := runLength_pos hpart rest
              exact absurd hfits (by rw [List.length_nil]; omega)
      | cons d text =>
          have hstart' : startsIdentifier (d :: text ++ other) = true := hstart
          rw [if_pos hstart', hparts.before_break hfits hother, hlength]
          simp only [settle, if_true, keyword?_at, Option.getD_none]
    · rename_i hstart
      obtain ⟨rfl, hlength⟩ := Prod.mk.inj h
      obtain rfl : text = [] := by simpa using hlength
      have hstart' : startsIdentifier ([] ++ other) = false := by
        cases hother <;> rfl
      rw [hstart']
      rfl

theorem point_before_break {rule : LexemeRule}
    (h : scan '.' (text ++ rest) = (rule, text.length + 1)) (hother : StopsAt rule other) :
    scan '.' (text ++ other) = (settle rule ('.' :: text), text.length + 1) := by
  rw [scan_point] at h ⊢
  split at h
  · rename_i hstart
    obtain ⟨rfl, hlength⟩ := Prod.mk.inj h
    have hfits : fraction (text ++ rest) ≤ text.length := by omega
    cases text with
    | nil =>
        have hpos := fraction_pos hstart
        exact absurd hfits (by rw [List.length_nil]; omega)
    | cons d text =>
        have hstart' : startsWithDigit (d :: text ++ other) = true := hstart
        have hname : TokenKind.realLiteral ≠ .identifier := by decide
        rw [if_pos hstart', fraction_settled.before_break hfits hother, hlength,
          settle_token hname]
  · rename_i hstart
    obtain ⟨rfl, hlength⟩ := Prod.mk.inj h
    obtain rfl : text = [] := by simpa using hlength
    rw [List.nil_append, startsWithDigit_of_breaks hother]
    rfl

theorem special_before_break {rule : LexemeRule} (hspecial : isSpecial c = true)
    (h : scan c (text ++ rest) = (rule, text.length + 1)) (hother : StopsAt rule other) :
    scan c (text ++ other) = (settle rule (c :: text), text.length + 1) := by
  have hmem : c ∈ ['\n', '\ufeff', '/', '"', '\'', '@', '.'] := by
    simpa [isSpecial] using hspecial
  simp only [List.mem_cons, List.not_mem_nil, or_false] at hmem
  rcases hmem with rfl | rfl | rfl | rfl | rfl | rfl | rfl
  · rw [scan_newline] at h
    obtain ⟨rfl, -⟩ := Prod.mk.inj h
    exact hother.elim
  · rw [scan_mark] at h
    obtain ⟨rfl, hlength⟩ := Prod.mk.inj h
    rw [scan_mark, ← hlength]
    rfl
  · exact slash_before_break h hother
  · exact literal_before_break (by decide) (by decide) h hother
  · exact literal_before_break (by decide) (by decide) h hother
  · exact at_before_break h hother
  · exact point_before_break h hother

theorem scan_before_break {rule : LexemeRule}
    (h : scan c (text ++ rest) = (rule, text.length + 1)) (hother : StopsAt rule other) :
    scan c (text ++ other) = (settle rule (c :: text), text.length + 1) := by
  cases hblank : isWhitespace c with
  | true =>
      unfold scan at h
      rw [if_pos hblank] at h
      obtain ⟨rfl, -⟩ := Prod.mk.inj h
      exact hother.elim
  | false =>
  cases hdigit : c.isDigit with
  | true =>
      rw [scan_digit hblank hdigit] at h ⊢
      exact numeral_before_break h hother
  | false =>
  cases hstart : isIdentifierStart c with
  | true =>
      rw [scan_name hblank hdigit hstart] at h ⊢
      exact word_before_break h hother
  | false =>
  cases hspecial : isSpecial c with
  | true => exact special_before_break hspecial h hother
  | false =>
      rw [scan_symbol hblank hdigit hstart hspecial] at h ⊢
      exact punctuationOrUnmatched_before_break h hother

theorem literalBody_le (quote : Char) (cs : List Char) :
    (literalBody quote cs).1 ≤ cs.length := by
  fun_induction literalBody quote cs <;> simp_all

theorem verbatimBody_le (cs : List Char) : (verbatimBody cs).1 ≤ cs.length := by
  fun_induction verbatimBody cs <;> simp_all

theorem commentBody_le (cs : List Char) : (commentBody cs).1 ≤ cs.length := by
  fun_induction commentBody cs <;> simp_all

theorem punctuationOrUnmatched_le (c : Char) (rest : List Char) :
    (punctuationOrUnmatched (c :: rest)).2 ≤ rest.length + 1 := by
  unfold punctuationOrUnmatched
  split
  · rename_i hfound
    exact (punctuation?_at hfound).le
  · exact Nat.le_add_left 1 _

theorem literal_le (kind : TokenKind) (quote : Char) (rest : List Char) :
    (literal kind quote rest).2 ≤ rest.length + 1 :=
  Nat.succ_le_succ (literalBody_le quote rest)

theorem scan_le (c : Char) (rest : List Char) : (scan c rest).2 ≤ rest.length + 1 := by
  have hrun (p : Char → Bool) (cs : List Char) : runLength p cs ≤ cs.length :=
    (List.takeWhile_sublist p).length_le
  have hone : 1 ≤ rest.length + 1 := Nat.le_add_left 1 _
  cases hblank : isWhitespace c with
  | true =>
      unfold scan
      rw [if_pos hblank, Nat.add_comm]
      exact Nat.succ_le_succ (hrun _ rest)
  | false =>
  cases hdigit : c.isDigit with
  | true =>
      rw [scan_digit hblank hdigit]
      exact numeral_settled.le (c :: rest)
  | false =>
  cases hstart : isIdentifierStart c with
  | true =>
      rw [scan_name hblank hdigit hstart]
      exact hrun _ (c :: rest)
  | false =>
      unfold scan
      rw [if_neg (by simp [hblank]), if_neg (by simp [hdigit]), if_neg (by simp [hstart])]
      split
      · exact hone
      · exact hone
      · rename_i behind
        have hle := hrun (· != '\n') behind
        simp only [List.length_cons]
        omega
      · rename_i behind
        exact Nat.add_le_add_right (commentBody_le behind) 2
      · exact literal_le _ _ _
      · exact literal_le _ _ _
      · rename_i behind
        exact Nat.add_le_add_right (verbatimBody_le behind) 2
      · have hle := hrun isIdentifierPart rest
        split <;> simp only <;> omega
      · have hle := fraction_settled.le rest
        rw [id] at hle
        split <;> simp only <;> omega
      · exact punctuationOrUnmatched_le _ _

end TolerantSyntax.LexemeRule
