import TolerantSyntax.Proofs.Diagnostics
import TolerantSyntax.Proofs.Lexer.Keywords
import TolerantSyntax.Proofs.Recovery.Tree

/-!
# Diagnostics are well formed

Whatever the text is, its diagnostics are errors in the order of the text.  Each is at a span
of the text, with an argument for every placeholder of its code, and where a code shows the
token that was found it is the one at that span.
-/

namespace TolerantSyntax

def DiagnosticCode.showsText : DiagnosticCode → Bool
  | .invalidMemberDecl | .invalidExprTerm | .unexpectedToken | .unexpectedCharacter => true
  | _ => false

structure Diagnostic.WellFormed (source : String) (tokens : TokenList) (diagnostic : Diagnostic) :
    Prop where
  within : diagnostic.span.Within source
  stop_le : diagnostic.span.stop ≤ source.utf8ByteSize
  isError : diagnostic.isError = true
  arity : diagnostic.args.length = diagnostic.code.arity
  shows : diagnostic.code.showsText = true → ∃ token ∈ tokens.tokens.toList,
    diagnostic.span = token.span ∧ diagnostic.args =
      [if token.kind = .eof then TokenKind.eof.displayName else token.span.slice source]

namespace Diagnostic.WellFormed

variable {source : String} {tokens : TokenList} {code : DiagnosticCode} {span : Span}
  {args : List String}

theorem of_silent (hspan : span.Within source) (harity : args.length = code.arity)
    (hsilent : code.showsText = false) :
    WellFormed source tokens (.error code span args) where
  within := hspan
  stop_le := hspan.stop.le_utf8ByteSize
  isError := rfl
  arity := harity
  shows := fun h => absurd h (by simp [error, hsilent])

theorem of_token {token : Token} {text : String} (hspan : token.span.Within source)
    (hmem : token ∈ tokens.tokens.toList) (harity : code.arity = 1)
    (htext : text =
      if token.kind = .eof then TokenKind.eof.displayName else token.span.slice source) :
    WellFormed source tokens (.error code token.span [text]) where
  within := hspan
  stop_le := hspan.stop.le_utf8ByteSize
  isError := rfl
  arity := harity.symm
  shows := fun _ => ⟨token, hmem, rfl, congrArg (fun text => [text]) htext⟩

end Diagnostic.WellFormed

theorem Lexeme.span_within {source : String} {lexeme : Lexeme} (h : lexeme ∈ ofText source) :
    lexeme.span.Within source :=
  (ofText_cut source).1.within (List.mem_map_of_mem h)

theorem Lexeme.diagnostic?_wellFormed {source : String} {lexeme : Lexeme}
    {diagnostic : Diagnostic} (hmem : lexeme ∈ ofText source)
    (h : lexeme.diagnostic? = some diagnostic) :
    diagnostic.WellFormed source (lex source).tokens := by
  have hspan := span_within hmem
  have hunknown : lexeme.isTrivia = false → lexeme.kind = .unknown →
      Diagnostic.WellFormed source (lex source).tokens
        (.error .unexpectedCharacter lexeme.span [String.ofList lexeme.text]) := by
    intro hown hkind
    obtain ⟨token, htoken, hmade⟩ := exists_made_of_mem_owned hmem hown
    rw [← hmade.span] at hspan ⊢
    refine .of_token hspan ((TokenList.inner_prefix _).subset htoken) rfl ?_
    rw [if_neg (by rw [hmade.kind, hkind]; exact nofun), hmade.span, slice_of_mem hmem]
  unfold diagnostic? at h
  split at h
  · cases h
    exact .of_silent hspan rfl rfl
  · cases h
    exact .of_silent hspan rfl rfl
  · cases h
    exact .of_silent hspan rfl rfl
  · rename_i hrule
    cases h
    exact hunknown (by simp [isTrivia, hrule]) (by simp [kind, hrule])
  · rename_i hrule
    split at h
    · cases h
    · rename_i hown
      cases h
      exact hunknown (by simpa using hown) (by simp [kind, hrule])
  · cases h

section Tokens

variable {source : String} {index : Nat}

theorem span_within_of_mem_lex {token : Token} (h : token ∈ (lex source).tokens.tokens.toList) :
    token.span.Within source :=
  Span.Cut.within (lex_spans_cut source) (List.mem_flatMap.mpr ⟨token, h, by simp [Token.spans]⟩)

theorem Finding.tokenAt_mem (h : index ≤ (lex source).tokens.inner.length) :
    tokenAt (lex source).tokens index ∈ (lex source).tokens.tokens.toList := by
  have hindex : index < (lex source).tokens.tokens.size := by
    have hsize : (lex source).tokens.tokens.size = _ := SyntaxTree.size_lex source
    omega
  rw [tokenAt, TokenList.get?, Array.getElem?_eq_getElem hindex, Option.getD_some]
  exact Array.mem_toList_iff.mpr (Array.getElem_mem hindex)

theorem Finding.spanAt_within (h : index ≤ (lex source).tokens.inner.length) :
    (spanAt (lex source).tokens index).Within source :=
  span_within_of_mem_lex (tokenAt_mem h)

theorem Finding.absentSpan_within (h : index ≤ (lex source).tokens.inner.length) :
    (absentSpan (lex source).tokens index).Within source := by
  unfold absentSpan
  simp only
  split
  · exact (spanAt_within (Nat.le_trans (Nat.sub_le index 1) h)).behind
  · exact spanAt_within h

theorem Finding.textAt_eq (source : String) (tokens : TokenList) (index : Nat) :
    textAt source tokens index =
      if (tokenAt tokens index).kind = .eof then TokenKind.eof.displayName
      else (tokenAt tokens index).span.slice source := by
  unfold textAt
  simp only
  split
  · rename_i heof
    rw [heof]
  · rfl

theorem Finding.textAt_ref (h : (Sentence.ofTokens (lex source).tokens).kindAt index = .refKw) :
    textAt source (lex source).tokens index = "ref" := by
  have hindex := Sentence.lt_size_of_kindAt (ne_of_eq_of_ne h (by decide))
  rw [Sentence.size_ofTokens] at hindex
  have hkind : (tokenAt (lex source).tokens index).kind = .refKw := by
    rw [← kindAt_inner hindex, h]
  have hmem : tokenAt (lex source).tokens index ∈ (lex source).tokens.inner := by
    rw [tokenAt_inner hindex]
    exact List.getElem_mem hindex
  have hslice := slice_of_keyword hmem (by rw [hkind]; rfl)
  have hspelled : TokenKind.refKw.fixedText? = some "ref" := rfl
  rw [hkind, hspelled] at hslice
  rw [textAt_eq, if_neg (by rw [hkind]; decide), ← Option.some.inj hslice]

end Tokens

theorem Finding.diagnostic?_wellFormed {source : String} {version : LanguageVersion}
    {finding : Finding} {diagnostic : Diagnostic}
    (hsound : finding.Sound (.ofTokens (lex source).tokens))
    (h : finding.diagnostic? source (lex source).tokens version = some diagnostic) :
    diagnostic.WellFormed source (lex source).tokens := by
  have hplace := hsound.place
  rw [Sentence.size_ofTokens] at hplace
  have hspan := spanAt_within hplace
  have hmem := tokenAt_mem hplace
  cases finding with
  | absent kind place =>
      cases h
      have habsent := absentSpan_within hplace
      unfold absentDiagnostic
      simp only
      split <;> exact .of_silent habsent rfl rfl
  | typeExpected place | strayOutside place | shortTuple opening | operatorExpected place
  | accessorExpected place =>
      cases h
      exact .of_silent hspan rfl rfl
  | strayInType place | invalidTerm place =>
      cases h
      exact .of_token hspan hmem rfl (textAt_eq _ _ _)
  | skippedRef place =>
      -- The text is fixed here, and the token under the span is spelled that way.
      cases h
      have htext := textAt_ref hsound.atRef
      exact .of_token hspan hmem rfl (htext.symm.trans (textAt_eq _ _ _))
  | uses feature place =>
      rw [diagnostic?, Feature.check?] at h
      split at h
      · cases h
      · cases h
        exact .of_silent hspan rfl rfl

namespace SyntaxTree

theorem sorted_pairwise (bag : DiagnosticBag) :
    bag.sorted.Pairwise fun left right => left.span.start ≤ right.span.start := by
  have hpairwise := List.pairwise_mergeSort DiagnosticBag.start_le_trans
    DiagnosticBag.start_le_total bag.diagnostics
  exact hpairwise.imp fun hle => by simpa using hle

theorem diagnostics_wellFormed (source : String) (version : LanguageVersion) :
    ∀ diagnostic ∈ (ofText source version).diagnostics,
      diagnostic.WellFormed source (ofText source version).tokens := by
  intro diagnostic hmem
  rw [ofText_tokens]
  rcases mem_diagnostics.mp hmem with hlexical | hfound
  · rw [lex_diagnostics] at hlexical
    obtain ⟨lexeme, hlexeme, hsome⟩ := List.mem_filterMap.mp hlexical
    exact Lexeme.diagnostic?_wellFormed hlexeme hsome
  · obtain ⟨finding, hfinding, hsome⟩ := List.mem_filterMap.mp hfound
    have hsound := ofSentence_sound _ finding (List.mem_reverse.mp hfinding)
    exact Finding.diagnostic?_wellFormed hsound hsome

/-- The diagnostics of a text stand in its order and are well formed.  All of them are errors,
so the text has errors when it has diagnostics. -/
theorem ofText_reports (source : String) (version : LanguageVersion) :
    ((ofText source version).diagnostics.Pairwise fun left right =>
        left.span.start ≤ right.span.start) ∧
      (∀ diagnostic ∈ (ofText source version).diagnostics,
        diagnostic.WellFormed source (ofText source version).tokens) ∧
      ((ofText source version).hasErrors = true ↔ (ofText source version).diagnostics ≠ []) := by
  have hall := diagnostics_wellFormed source version
  refine ⟨?_, hall, ?_⟩
  · rw [ofText_diagnostics]
    exact sorted_pairwise _
  · rw [hasErrors, List.any_eq_true]
    constructor
    · rintro ⟨diagnostic, hmem, -⟩
      exact List.ne_nil_of_mem hmem
    · intro hne
      obtain ⟨diagnostic, hmem⟩ := List.exists_mem_of_ne_nil _ hne
      exact ⟨diagnostic, hmem, (hall diagnostic hmem).isError⟩

end SyntaxTree
end TolerantSyntax
