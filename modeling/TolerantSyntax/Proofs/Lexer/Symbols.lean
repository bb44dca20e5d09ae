import TolerantSyntax.Proofs.Lexer.Relexing

/-!
# The sentence of a text

Two tokens are adjacent when one ends where the next starts.  So the lexemes of a text that are
no trivia determine the sentence that the grammar sees.
-/

namespace TolerantSyntax

theorem Span.Cut.leading {token : Token} {spans : List Span} {offset : Nat} {cs : List Char}
    (h : Cut (token.spans ++ spans) offset cs) :
    offset ≤ token.span.start ∧ token.leading.isEmpty = (token.span.start == offset) := by
  obtain ⟨front, _, rfl, hleading, own, _, rfl, hspan, -⟩ := h
  rw [hleading] at hspan ⊢
  rw [hspan]
  refine ⟨Nat.le_add_right _ _, ?_⟩
  rw [Bool.eq_iff_iff]
  simp only [isEmpty, beq_iff_eq]
  exact eq_comm

theorem Lexer.Attaches.adjacent {textEnd offset : Nat} {touching : Bool} {lexemes : List Lexeme}
    {tokens : List Token} (h : Attaches textEnd touching offset lexemes tokens) {cs : List Char}
    (hcut : Span.Cut (tokens.flatMap (·.spans)) offset cs) :
    (∀ first ∈ tokens.head?, offset ≤ first.span.start ∧
        first.flags.adjacent = (touching && first.span.start == offset)) ∧
      tokens.IsChain fun token next =>
        next.flags.adjacent = (token.span.stop == next.span.start) := by
  induction h generalizing cs with
  | @eof touching offset before token trivia kind leading span trailing adjacent =>
      obtain ⟨hle, hempty⟩ := Span.Cut.leading hcut
      rw [hempty] at adjacent
      simpa using ⟨hle, adjacent⟩
  | @token touching offset before behind pending lexeme token tokens trivia own trails wraps
      adjacent rest ih =>
      obtain ⟨hle, hempty⟩ := Span.Cut.leading hcut
      rw [hempty] at adjacent
      obtain ⟨front, _, rfl, -, own, _, rfl, -, back, last, rfl, htrailing, hrest⟩ := hcut
      obtain ⟨hhead, hchain⟩ := ih hrest
      refine ⟨by simpa using ⟨hle, adjacent⟩, List.isChain_cons.mpr ⟨fun next hnext => ?_, hchain⟩⟩
      obtain ⟨hforward, hnext⟩ := hhead next hnext
      rw [hnext, Bool.eq_iff_iff]
      rw [htrailing] at hforward ⊢
      simp only [Span.isEmpty, Bool.and_eq_true, beq_iff_eq] at hforward ⊢
      omega

theorem lex_adjacent (text : String) :
    (lex text).tokens.tokens.toList.IsChain fun token next =>
      next.flags.adjacent = (token.span.stop == next.span.start) :=
  ((lex_attaches text).adjacent (lex_spans_cut text)).2

def Lexeme.symbols (front? : Option Lexeme) : List Lexeme → List Symbol
  | [] => []
  | lexeme :: rest =>
      ⟨lexeme.kind, Lexer.contextual lexeme, lexeme.kind == .gt &&
        front?.any fun front => front.kind == .gt && front.span.stop == lexeme.span.start⟩
        :: symbols (some lexeme) rest

namespace Sentence

theorem symbolsOf_made {tokens : List Token} {lexemes : List Lexeme} {front last : Token}
    {lexeme : Lexeme} (hmade : List.Forall₂ Lexer.MadeOf tokens lexemes)
    (hfront : Lexer.MadeOf front lexeme) (hkinds : ∀ token ∈ tokens, token.kind ≠ .eof)
    (hlast : last.kind = .eof)
    (hchain : (front :: (tokens ++ [last])).IsChain fun token next =>
      next.flags.adjacent = (token.span.stop == next.span.start)) :
    symbolsOf (front.kind == .gt) (tokens ++ [last]) = Lexeme.symbols (some lexeme) lexemes := by
  induction hmade generalizing front lexeme with
  | nil => simp [symbolsOf, hlast, Lexeme.symbols]
  | @cons token own tokens lexemes hof hmade ih =>
      obtain ⟨hkind, hrest⟩ := List.forall_mem_cons.mp hkinds
      obtain ⟨hadjacent, hchain⟩ := List.isChain_cons_cons.mp hchain
      rw [List.cons_append, symbolsOf, if_neg hkind]
      dsimp only
      rw [ih hof hrest hchain, hadjacent, hof.kind, hof.contextual, hof.span, hfront.kind,
        hfront.span]
      simp [Lexeme.symbols, Bool.and_assoc]

/-- What the grammar sees of a text. -/
theorem ofTokens_lex (source : String) :
    ofTokens (lex source).tokens =
      ⟨(Lexeme.symbols none (Lexeme.owned (Lexeme.ofText source))).toArray⟩ := by
  obtain ⟨tokens, last, htokens, hmade, hkinds, hlast, -⟩ := lex_made source
  have hadjacent := lex_adjacent source
  rw [htokens] at hadjacent
  have hsymbols : symbolsOf false (tokens ++ [last]) =
      Lexeme.symbols none (Lexeme.owned (Lexeme.ofText source)) := by
    have howned : List.Forall₂ Lexer.MadeOf tokens (Lexeme.owned (Lexeme.ofText source)) := hmade
    generalize Lexeme.owned (Lexeme.ofText source) = lexemes at howned
    cases howned with
    | nil => simp [symbolsOf, hlast, Lexeme.symbols]
    | @cons token own tokens lexemes hof hbehind =>
        obtain ⟨hkind, hrest⟩ := List.forall_mem_cons.mp hkinds
        rw [List.cons_append, symbolsOf, if_neg hkind.1]
        dsimp only
        rw [symbolsOf_made hbehind hof (fun token hmem => (hrest token hmem).1) hlast hadjacent,
          hof.kind, hof.contextual]
        simp [Lexeme.symbols]
  rw [ofTokens, htokens, hsymbols]

end Sentence
end TolerantSyntax
