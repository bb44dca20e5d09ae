import TolerantSyntax.Proofs.Diagnostics

/-!
# No recovery without a diagnostic

Every error that the grammar notes becomes a diagnostic, whatever the version.  So a text
whose diagnostics only name features has a tree without artefacts, and the tree stands for
exactly the tokens of the text.
-/

namespace TolerantSyntax

namespace SyntaxTree

theorem errors_eq_zero (source : String) {tokens : TokenList} (version : LanguageVersion)
    {state : ParseState}
    (h : ∀ diagnostic ∈ findingsIn source tokens version state,
      diagnostic.code = .featureNotAvailableInVersion) : state.errors = 0 := by
  unfold ParseState.errors
  rw [List.countP_eq_zero]
  intro finding hmem herror
  obtain ⟨diagnostic, hcode, hsome⟩ := Finding.diagnostic?_of_isError herror source tokens
  refine hcode (h diagnostic ?_)
  unfold findingsIn
  exact List.mem_filterMap.mpr ⟨finding, List.mem_reverse.mpr hmem, hsome version⟩

end SyntaxTree

theorem Finding.map_kind_tokenAt (tokens : TokenList) :
    (List.range' 0 tokens.inner.length).map (fun index => (tokenAt tokens index).kind) =
      tokens.inner.map (·.kind) := by
  apply List.ext_getElem
  · simp
  · intro index hleft hright
    have hindex : index < tokens.inner.length := by simpa using hright
    simp [tokenAt_inner hindex]

namespace SyntaxTree

theorem ofSentence_yields {tokens : TokenList}
    (h : (ofSentence (.ofTokens tokens)).2.errors = 0) :
    (∀ artefact, .artefact artefact ∉ (ofSentence (.ofTokens tokens)).1.pieces) ∧
      Piece.Yield (fun index => (Finding.tokenAt tokens index).kind)
        (ofSentence (.ofTokens tokens)).1.pieces (tokens.inner.map (·.kind)) := by
  obtain ⟨hend, -, -, hcovers⟩ := ofSentence_covers tokens
  have hspells : (Sentence.ofTokens tokens).Spells (ofSentence (.ofTokens tokens)).1.pieces 0
      tokens.inner.length := by
    rw [← hend]
    exact hcovers.spells h
  constructor
  · exact hspells.not_mem_artefact
  · rw [← Finding.map_kind_tokenAt]
    apply hspells.yield
    intro index hindex
    exact Finding.kindAt_inner hindex

/-- When only features are reported, nothing in the tree comes from recovery, and the tree
stands for the kinds of the tokens before the end of file. -/
theorem accepted_yields {source : String} {version : LanguageVersion}
    (h : ∀ diagnostic ∈ (ofText source version).diagnostics,
      diagnostic.code = .featureNotAvailableInVersion) :
    (∀ artefact, .artefact artefact ∉ (ofText source version).root.pieces) ∧
      Piece.Yield (fun index => (Finding.tokenAt (ofText source version).tokens index).kind)
        (ofText source version).root.pieces
        ((ofText source version).tokens.inner.map (·.kind)) := by
  rw [ofText_root, ofText_tokens]
  apply ofSentence_yields
  apply errors_eq_zero source version
  intro diagnostic hmem
  exact h diagnostic (mem_diagnostics.mpr (.inr hmem))

theorem accepted_yields_tuple_field :
    (∀ artefact,
      .artefact artefact ∉ (ofText "class C { (int, int) f = { 1, }; }" .v1).root.pieces) ∧
      Piece.Yield (fun index => (Finding.tokenAt
          (ofText "class C { (int, int) f = { 1, }; }" .v1).tokens index).kind)
        (ofText "class C { (int, int) f = { 1, }; }" .v1).root.pieces
        ((ofText "class C { (int, int) f = { 1, }; }" .v1).tokens.inner.map (·.kind)) := by
  apply accepted_yields
  intro diagnostic hmem
  have hlexical : ∀ diagnostic ∈ (lex "class C { (int, int) f = { 1, }; }").diagnostics,
      diagnostic.code = .featureNotAvailableInVersion := by decide +kernel
  have hfound : ∀ diagnostic ∈ findingsIn "class C { (int, int) f = { 1, }; }"
      (lex "class C { (int, int) f = { 1, }; }").tokens .v1
      (ofSentence (.ofTokens (lex "class C { (int, int) f = { 1, }; }").tokens)).2,
      diagnostic.code = .featureNotAvailableInVersion := by decide +kernel
  rcases mem_diagnostics.mp hmem with hmem | hmem
  · exact hlexical diagnostic hmem
  · exact hfound diagnostic hmem

end SyntaxTree
end TolerantSyntax
