import TolerantSyntax.Proofs.Acceptance
import TolerantSyntax.Proofs.Lexer.Symbols
import TolerantSyntax.Proofs.RoundTrip.Shown

/-!
# Written signs are read back as tokens

Signs with a blank in front of each are scanned one by one, for no token reaches over a blank.
The two halves of a right shift touch, and there is no token they could make together.
-/

namespace TolerantSyntax

open Lexeme (byteLength listFrom owned)
open LexemeRule (Breaks scan)

namespace Sign

theorem isToken_fixed {kind : TokenKind} (h : kind.fixedText?.isSome = true) :
    IsToken kind (kind.fixedText?.getD "") := by
  have htokens : ∀ kind ∈ TokenKind.all, kind.fixedText?.isSome = true →
      IsToken kind (kind.fixedText?.getD "") := by
    decide +kernel
  exact htokens kind kind.mem_all h

theorem IsToken.scan {kind : TokenKind} {text : String} (h : IsToken kind text) :
    ∃ c rest, text.toList = c :: rest ∧ LexemeRule.isWhitespace c = false ∧
      ∀ other, Breaks other →
        LexemeRule.scan c (rest ++ other) = (.token kind, rest.length + 1) := by
  unfold IsToken Lexeme.ofText at h
  rw [← String.length_toList] at h
  cases htext : text.toList with
  | nil => simp [htext, Lexeme.listFrom_nil] at h
  | cons c rest =>
      rw [htext, List.length_cons, Lexeme.listFrom_cons] at h
      simp only [List.map_cons, List.cons.injEq, List.map_eq_nil_iff] at h
      obtain ⟨hrule, hbehind⟩ := h
      obtain ⟨hpos, -⟩ := LexemeRule.scan_takes c rest
      have hle := LexemeRule.scan_le c rest
      have hall : (LexemeRule.scan c rest).2 = rest.length + 1 := by
        by_contra hne
        obtain ⟨d, behind, hdrop⟩ : ∃ d behind,
            (c :: rest).drop (LexemeRule.scan c rest).2 = d :: behind := by
          refine List.exists_cons_of_ne_nil fun hnil => ?_
          rw [List.drop_eq_nil_iff, List.length_cons] at hnil
          omega
        obtain ⟨fuel, hfuel⟩ : ∃ fuel, rest.length = fuel + 1 := ⟨rest.length - 1, by omega⟩
        rw [hdrop, hfuel, Lexeme.listFrom_cons] at hbehind
        exact nomatch hbehind
      have hscan : LexemeRule.scan c (rest ++ []) = (.token kind, rest.length + 1) := by
        rw [List.append_nil]
        exact Prod.ext hrule hall
      -- Before the end of the text the token is what it is, so it needs no settling.
      have hsettle := LexemeRule.scan_before_break hscan Breaks.nil
      have hkind : (LexemeRule.token kind).settle (c :: rest) = .token kind :=
        congrArg Prod.fst (hsettle.symm.trans hscan)
      refine ⟨c, rest, rfl, ?_, fun other hother => ?_⟩
      · by_contra hblank
        unfold LexemeRule.scan at hrule
        rw [if_pos (by simpa using hblank)] at hrule
        exact nomatch hrule
      · rw [LexemeRule.scan_before_break hscan hother, hkind]

/-- Signs that are tokens, with a blank in front of each but the second half of a right
shift. -/
inductive Spaced : List Sign → Prop where
  | nil : Spaced []
  | token {kind : TokenKind} {text : String} {rest : List Sign} (htoken : IsToken kind text)
      (hrest : Spaced rest) : Spaced (⟨kind, text, false⟩ :: rest)
  | shift {rest : List Sign} (hrest : Spaced rest) :
      Spaced (.fixed .gt :: { Sign.fixed .gt with joined := true } :: rest)

theorem Spaced.append {left right : List Sign} (hleft : Spaced left) (hright : Spaced right) :
    Spaced (left ++ right) := by
  induction hleft with
  | nil => exact hright
  | token htoken _ ih => exact .token htoken ih
  | shift _ ih => exact .shift ih

theorem Spaced.fixed {kind : TokenKind} {rest : List Sign} (h : kind.fixedText?.isSome = true)
    (hrest : Spaced rest) : Spaced (.fixed kind :: rest) :=
  .token (isToken_fixed h) hrest

theorem Spaced.of_tokens {signs : List Sign}
    (h : ∀ sign ∈ signs, IsToken sign.kind sign.text)
    (hjoined : ∀ sign ∈ signs, sign.joined = false) : Spaced signs := by
  induction signs with
  | nil => exact .nil
  | cons sign rest ih =>
      obtain ⟨hsign, hrest⟩ := List.forall_mem_cons.mp h
      obtain ⟨hfirst, hothers⟩ := List.forall_mem_cons.mp hjoined
      obtain ⟨kind, text, joined⟩ := sign
      obtain rfl : joined = false := hfirst
      exact .token hsign (ih hrest hothers)

def chars (signs : List Sign) : List Char := signs.flatMap (·.written.toList)

def lexeme (offset : Nat) (sign : Sign) : Lexeme :=
  ⟨.token sign.kind, ⟨offset, offset + byteLength sign.text.toList⟩, sign.text.toList⟩

def blank (offset : Nat) : Lexeme := ⟨.whitespace, ⟨offset, offset + 1⟩, [' ']⟩

def lexemes (offset : Nat) : List Sign → List Lexeme
  | [] => []
  | sign :: rest =>
      let start := if sign.joined then offset else offset + 1
      (if sign.joined then [] else [blank offset]) ++
        sign.lexeme start :: lexemes (sign.lexeme start).span.stop rest

theorem Spaced.breaks {signs : List Sign} (h : Spaced signs) : Breaks (chars signs) := by
  cases h with
  | nil => exact .nil
  | token | shift =>
      simp only [chars, List.flatMap_cons, written, Bool.false_eq_true, if_false,
        String.toList_append]
      exact .blank _

theorem listFrom_token {kind : TokenKind} {text : String} {behind : List Char} (fuel offset : Nat)
    (htoken : IsToken kind text) (hbehind : Breaks behind) :
    listFrom (fuel + 1) offset (text.toList ++ behind) =
      lexeme offset ⟨kind, text, false⟩ ::
        listFrom fuel (offset + byteLength text.toList) behind := by
  obtain ⟨c, rest, htext, -, hscan⟩ := htoken.scan
  rw [lexeme, htext, List.cons_append, Lexeme.listFrom_cons, hscan behind hbehind]
  simp only [List.take_succ_cons, List.take_left, List.drop_succ_cons, List.drop_left]

theorem listFrom_blank {c : Char} {behind : List Char} (fuel offset : Nat)
    (h : LexemeRule.isWhitespace c = false) :
    listFrom (fuel + 1) offset (' ' :: c :: behind) =
      blank offset :: listFrom fuel (offset + 1) (c :: behind) := by
  have hscan : scan ' ' (c :: behind) = (.whitespace, 1) := by
    unfold scan
    rw [if_pos (by decide), LexemeRule.runLength_cons_of_neg h]
  rw [Lexeme.listFrom_cons, hscan]
  rfl

theorem scan_shift (behind : List Char) : scan '>' ('>' :: behind) = (.token .gt, 1) := by
  rw [LexemeRule.scan_symbol (by decide) (by decide) (by decide) (by decide)]
  rfl

theorem listFrom_chars {signs : List Sign} (h : Spaced signs) (fuel offset : Nat)
    (hfuel : (chars signs).length ≤ fuel) :
    listFrom fuel offset (chars signs) = lexemes offset signs := by
  induction h generalizing fuel offset with
  | nil => exact Lexeme.listFrom_nil fuel offset
  | @token kind text rest htoken hrest ih =>
      obtain ⟨c, own, htext, hblank, -⟩ := htoken.scan
      have hchars : chars (⟨kind, text, false⟩ :: rest) = ' ' :: (text.toList ++ chars rest) := by
        simp [chars, written]
      rw [hchars, htext] at hfuel
      simp only [List.length_cons, List.length_append] at hfuel
      obtain ⟨fuel, rfl⟩ : ∃ fuel', fuel = fuel' + 2 := ⟨fuel - 2, by omega⟩
      have hfront : listFrom (fuel + 2) offset (' ' :: (text.toList ++ chars rest)) =
          blank offset :: listFrom (fuel + 1) (offset + 1) (text.toList ++ chars rest) := by
        rw [htext]
        exact listFrom_blank (fuel + 1) offset hblank
      rw [hchars, hfront, listFrom_token _ _ htoken hrest.breaks, ih _ _ (by omega)]
      rfl
  | @shift rest hrest ih =>
      have hchars : chars (fixed .gt :: { fixed .gt with joined := true } :: rest) =
          ' ' :: '>' :: '>' :: chars rest := rfl
      rw [hchars, List.length_cons, List.length_cons, List.length_cons] at hfuel
      obtain ⟨fuel, rfl⟩ : ∃ fuel', fuel = fuel' + 3 := ⟨fuel - 3, by omega⟩
      have hgt : IsToken .gt ">" := isToken_fixed rfl
      have hlast := listFrom_token fuel (offset + 2) hgt hrest.breaks
      rw [hchars, listFrom_blank _ _ (by decide), Lexeme.listFrom_cons, scan_shift]
      simp only [List.take_succ_cons, List.take_zero, List.drop_succ_cons, List.drop_zero]
      change _ :: _ :: listFrom (fuel + 1) (offset + 2) (">".toList ++ chars rest) = _
      rw [hlast, ih _ _ (by omega)]
      rfl

/-! ## Tokens of signs -/

def symbol (sign : Sign) : Symbol :=
  ⟨sign.kind, if sign.kind = .identifier then .ofText sign.text else .none, sign.joined⟩

def spelling (sign : Sign) : Spelling := ⟨sign.kind, sign.symbol.contextual, sign.text⟩

theorem lexemes_diagnostic? (offset : Nat) (signs : List Sign) :
    (lexemes offset signs).filterMap (·.diagnostic?) = [] := by
  induction signs generalizing offset with
  | nil => rfl
  | cons sign rest ih =>
      rw [lexemes]
      cases sign.joined <;> exact ih _

theorem owned_lexemes_cons (offset : Nat) (sign : Sign) (rest : List Sign) :
    owned (lexemes offset (sign :: rest)) =
      sign.lexeme (if sign.joined then offset else offset + 1) ::
        owned (lexemes (sign.lexeme (if sign.joined then offset else offset + 1)).span.stop
          rest) := by
  rw [lexemes]
  cases sign.joined <;> rfl

theorem spelling_lexeme (offset : Nat) (sign : Sign) :
    (sign.lexeme offset).spelling = sign.spelling := by
  rw [Lexeme.spelling, lexeme, spelling, String.ofList_toList, Lexer.contextual,
    String.ofList_toList]
  rfl

theorem spelling_lexemes (offset : Nat) (signs : List Sign) :
    (owned (lexemes offset signs)).map (·.spelling) = signs.map (·.spelling) := by
  induction signs generalizing offset with
  | nil => rfl
  | cons sign rest ih =>
      rw [owned_lexemes_cons, List.map_cons, List.map_cons, spelling_lexeme, ih]

theorem symbols_cons (front? : Option Lexeme) (offset : Nat) (sign : Sign)
    (rest : List Lexeme) :
    Lexeme.symbols front? (sign.lexeme offset :: rest) =
      ⟨sign.kind, sign.symbol.contextual, sign.kind == .gt &&
        front?.any fun front => front.kind == .gt && front.span.stop == offset⟩
        :: Lexeme.symbols (some (sign.lexeme offset)) rest := by
  rw [Lexeme.symbols, Lexer.contextual, lexeme, String.ofList_toList]
  rfl

theorem Spaced.symbols {signs : List Sign} (h : Spaced signs) {front? : Option Lexeme}
    {offset : Nat} (hfront : ∀ front ∈ front?, front.span.stop ≤ offset) :
    Lexeme.symbols front? (owned (lexemes offset signs)) = signs.map (·.symbol) := by
  have hapart {front? : Option Lexeme} {offset : Nat}
      (hfront : ∀ front ∈ front?, front.span.stop ≤ offset) :
      (front?.any fun front => front.kind == .gt && front.span.stop == offset + 1) = false := by
    cases front? with
    | none => rfl
    | some front =>
        have hle := hfront front rfl
        have hne : (front.span.stop == offset + 1) = false := by
          rw [beq_eq_false_iff_ne]
          omega
        rw [Option.any_some, hne, Bool.and_false]
  have hback (lexeme : Lexeme) : ∀ front ∈ some lexeme, front.span.stop ≤ lexeme.span.stop := by
    rintro _ ⟨⟩
    exact Nat.le_refl _
  induction h generalizing front? offset with
  | nil => rfl
  | @token kind text rest htoken hrest ih =>
      rw [owned_lexemes_cons, symbols_cons, ih (hback _), List.map_cons]
      simp only [Bool.false_eq_true, if_false, hapart hfront, Bool.and_false]
      rfl
  | @shift rest hrest ih =>
      rw [owned_lexemes_cons, owned_lexemes_cons, symbols_cons, symbols_cons, ih (hback _),
        List.map_cons, List.map_cons]
      simp only [Sign.fixed, Bool.false_eq_true, if_false, if_true, hapart hfront, Bool.and_false,
        Option.any_some, beq_self_eq_true, Bool.and_true]
      rfl

/-! ## Written texts -/

variable {kind : TokenKind} {text : String} {signs : List Sign}

def source (text : String) (signs : List Sign) : String :=
  text ++ String.join (signs.map (·.written))

theorem ofText_source (htoken : IsToken kind text) (h : Spaced signs) :
    Lexeme.ofText (source text signs) =
      lexeme 0 ⟨kind, text, false⟩ :: lexemes (0 + byteLength text.toList) signs := by
  have hchars : (source text signs).toList = text.toList ++ chars signs := by
    rw [source, String.toList_append, String.join_eq, String.toList_ofList, List.map_map]
    rfl
  obtain ⟨c, rest, htext, -, -⟩ := htoken.scan
  have hpos : 0 < text.toList.length := by rw [htext]; exact Nat.succ_pos _
  have hlength :
      (source text signs).length = (chars signs).length + (text.toList.length - 1) + 1 := by
    rw [← String.length_toList, hchars, List.length_append]
    omega
  rw [Lexeme.ofText, hchars, hlength, listFrom_token _ _ htoken h.breaks,
    listFrom_chars h _ _ (Nat.le_add_right _ _)]

theorem lex_source_diagnostics (htoken : IsToken kind text) (h : Spaced signs) :
    (lex (source text signs)).diagnostics = [] := by
  rw [lex_diagnostics, ofText_source htoken h]
  exact lexemes_diagnostic? _ signs

theorem lex_source_spelling (htoken : IsToken kind text) (h : Spaced signs) :
    (lex (source text signs)).tokens.inner.map (·.spelling (source text signs)) =
      (⟨kind, text, false⟩ :: signs).map (·.spelling) := by
  rw [inner_spelling, ofText_source htoken h, Lexeme.owned_cons_of_own rfl, List.map_cons,
    spelling_lexeme, spelling_lexemes, List.map_cons]

theorem ofTokens_lex_source (htoken : IsToken kind text) (h : Spaced signs) :
    Sentence.ofTokens (lex (source text signs)).tokens =
      ⟨((⟨kind, text, false⟩ :: signs).map (·.symbol)).toArray⟩ := by
  have hfront : ∀ front ∈ some (lexeme 0 ⟨kind, text, false⟩),
      front.span.stop ≤ 0 + byteLength text.toList := by
    rintro _ ⟨⟩
    exact Nat.le_refl _
  rw [Sentence.ofTokens_lex, ofText_source htoken h, Lexeme.owned_cons_of_own rfl, symbols_cons,
    h.symbols hfront, List.map_cons, Option.any_none, Bool.and_false]
  rfl

end Sign

def SyntaxTree.word (tree : SyntaxTree) (index : Nat) : Spelling :=
  (Finding.tokenAt tree.tokens index).spelling tree.source

theorem Sentence.shows_of_getElem? {sentence : Sentence} {word : Nat → Spelling} {start : Nat}
    {signs : List Sign}
    (h : ∀ index sign, signs[index]? = some sign →
      sentence.symbols[start + index]? = some sign.symbol ∧ word (start + index) = sign.spelling) :
    sentence.Shows word start signs := by
  induction signs generalizing start with
  | nil => trivial
  | cons sign rest ih =>
      obtain ⟨hsymbol, hword⟩ := h 0 sign rfl
      rw [Nat.add_zero] at hsymbol hword
      refine ⟨?_, ih fun index other hother => ?_⟩
      · unfold kindAt joinedAt
        rw [hsymbol, hword]
        exact ⟨rfl, rfl, rfl, rfl⟩
      · rw [Nat.add_assoc, Nat.add_comm 1]
        exact h (index + 1) other hother

/-- The signs stand in the sentence of a text, where its tokens are known. -/
theorem Sign.shows_of_lex {source : String} {signs : List Sign}
    (hsymbols : Sentence.ofTokens (lex source).tokens = ⟨(signs.map (·.symbol)).toArray⟩)
    (hspelling : (lex source).tokens.inner.map (·.spelling source) = signs.map (·.spelling)) :
    (Sentence.ofTokens (lex source).tokens).Shows
      (fun index => (Finding.tokenAt (lex source).tokens index).spelling source) 0 signs := by
  refine Sentence.shows_of_getElem? fun index sign hsign => ?_
  rw [Nat.zero_add, hsymbols, List.getElem?_toArray, List.getElem?_map, hsign]
  refine ⟨rfl, ?_⟩
  have hspelling := congrArg (·[index]?) hspelling
  simp only [List.getElem?_map, hsign, Option.map_some, Option.map_eq_some_iff] at hspelling
  obtain ⟨token, htoken, hspelling⟩ := hspelling
  obtain ⟨hindex, rfl⟩ := List.getElem?_eq_some_iff.mp htoken
  rw [Finding.tokenAt_inner hindex, hspelling]

theorem Sign.shows_source {kind : TokenKind} {text : String} {signs : List Sign}
    (htoken : IsToken kind text) (h : Spaced signs) :
    (Sentence.ofTokens (lex (source text signs)).tokens).Shows
      (fun index => (Finding.tokenAt (lex (source text signs)).tokens index).spelling
        (source text signs)) 0 (⟨kind, text, false⟩ :: signs) :=
  shows_of_lex (ofTokens_lex_source htoken h) (lex_source_spelling htoken h)

theorem BinaryOp.spaced_signs (op : BinaryOp) : Sign.Spaced op.signs := by
  cases op <;> first | exact .shift .nil | exact .fixed rfl .nil

theorem Term.spaced_argumentSigns {args : List Term} (h : ∀ arg ∈ args, Sign.Spaced arg.signs) :
    Sign.Spaced (argumentSigns args) ∧ Sign.Spaced (argumentSigns args).tail := by
  induction args with
  | nil => exact ⟨.nil, .nil⟩
  | cons arg rest ih =>
      obtain ⟨harg, hrest⟩ := List.forall_mem_cons.mp h
      have hall := harg.append (ih hrest).1
      exact ⟨.fixed rfl hall, hall⟩

theorem Term.WellFormed.spaced {term : Term} (h : term.WellFormed) : Sign.Spaced term.signs := by
  induction h with
  | literal _ htext => exact .token htext .nil
  | this => exact .fixed rfl .nil
  | parenthesized _ ih => exact .fixed rfl (ih.append (.fixed rfl .nil))
  | memberAccess _ _ hname ih => exact ih.append (.fixed rfl (.token hname .nil))
  | invocation _ _ _ ih ihargs | elementAccess _ _ _ _ ih ihargs =>
      exact ih.append (.fixed rfl ((spaced_argumentSigns ihargs).2.append (.fixed rfl .nil)))
  | @step op _ _ _ ih => exact ih.append (.fixed (by cases op <;> rfl) .nil)
  | @unary op _ _ _ ih => exact .fixed (by cases op <;> rfl) ih
  | @binary op _ _ _ _ _ _ ihleft ihright => exact ihleft.append (op.spaced_signs.append ihright)
  | conditional _ _ _ _ ihcondition ihtrue ihfalse =>
      exact ihcondition.append (.fixed rfl (ihtrue.append (.fixed rfl ihfalse)))
  | @assign op _ _ _ _ _ ihtarget ihvalue =>
      exact ihtarget.append (.fixed (by cases op <;> rfl) ihvalue)

end TolerantSyntax
