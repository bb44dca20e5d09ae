import TolerantSyntax.Proofs.Lexer.Errors
import TolerantSyntax.Proofs.Reports
import TolerantSyntax.Proofs.Speculation.Production

/-!
# Lexical errors in the diagnostics of a tree

The lexical errors stand in front of what the parser finds.  The codes tell the two apart, and
sorting does not move diagnostics of one kind past each other where they already are in order.
-/

namespace TolerantSyntax

theorem Lexeme.diagnostic?_isLexical {lexeme : Lexeme} {diagnostic : Diagnostic}
    (h : lexeme.diagnostic? = some diagnostic) : diagnostic.code.isLexical = true := by
  unfold diagnostic? at h
  repeat' split at h
  all_goals cases h
  all_goals rfl

theorem Finding.diagnostic?_isLexical {source : String} {tokens : TokenList}
    {version : LanguageVersion} {finding : Finding} {diagnostic : Diagnostic}
    (h : finding.diagnostic? source tokens version = some diagnostic) :
    diagnostic.code.isLexical = false := by
  cases finding with
  | absent kind place =>
      cases h
      unfold absentDiagnostic
      simp only
      split <;> rfl
  | uses feature place =>
      rw [diagnostic?, Feature.check?, Option.ite_none_left_eq_some] at h
      obtain ⟨-, h⟩ := h
      cases h
      rfl
  | _ =>
      cases h
      rfl

theorem lex_isLexical (source : String) :
    ∀ diagnostic ∈ (lex source).diagnostics, diagnostic.code.isLexical = true := by
  intro diagnostic hmem
  rw [lex_diagnostics, List.mem_filterMap] at hmem
  obtain ⟨lexeme, -, hsome⟩ := hmem
  exact Lexeme.diagnostic?_isLexical hsome

theorem SyntaxTree.findingsIn_isLexical (source : String) (tokens : TokenList)
    (version : LanguageVersion) (state : ParseState) :
    ∀ diagnostic ∈ findingsIn source tokens version state,
      diagnostic.code.isLexical = false := by
  intro diagnostic hmem
  obtain ⟨finding, -, hsome⟩ := List.mem_filterMap.mp hmem
  exact Finding.diagnostic?_isLexical hsome

namespace DiagnosticBag

theorem sorted_of_pairwise {diagnostics : List Diagnostic}
    (h : diagnostics.Pairwise fun left right => left.span.start ≤ right.span.start) :
    (mk diagnostics).sorted = diagnostics :=
  List.mergeSort_of_pairwise (h.imp fun hle => decide_eq_true hle)

theorem sorted_at (diagnostics : List Diagnostic) (start : Nat) :
    (mk diagnostics).sorted.filter (·.span.start == start) =
      diagnostics.filter (·.span.start == start) := by
  rw [← sorted_filter]
  refine sorted_of_pairwise (List.pairwise_of_forall_mem_list fun left hleft right hright => ?_)
  have hstart := eq_of_beq (List.mem_filter.mp hleft).2
  have hsame := eq_of_beq (List.mem_filter.mp hright).2
  exact Nat.le_of_eq (hstart.trans hsame.symm)

end DiagnosticBag

namespace SyntaxTree

/-- The lexical errors of a text come through parsing as they are, each in front of what the
parser reports at its start.  The rest are the parser's own, by their starts, and at one start in
the order in which they are detected.  That the lexical ones are in front all the time, also
where the parser goes back, is what a parser says that is changed in place. -/
theorem ofText_merged (source : String) (version : LanguageVersion) :
    let reported := (ofText source version).diagnostics
    let lexical := (lex source).diagnostics
    let found := findingsIn source (lex source).tokens version
      (ofSentence (.ofTokens (lex source).tokens)).2
    reported.filter (·.code.isLexical) = lexical ∧
      reported.filter (!·.code.isLexical) = (DiagnosticBag.mk found).sorted ∧
      (∀ start, reported.filter (·.span.start == start) =
        lexical.filter (·.span.start == start) ++ found.filter (·.span.start == start)) ∧
      (reported.Pairwise fun left right => left.span.start ≤ right.span.start) ∧
      ∃ script : Script CompilationUnit, script.parse = Production.compilationUnit.parse ∧
        (script.run (.ofTokens source (lex source).tokens version)
          ⟨0, .none, ⟨lexical⟩, .empty⟩).2.diagnostics = ⟨lexical ++ found⟩ := by
  intro reported lexical found
  have hlexical : ∀ diagnostic ∈ lexical, diagnostic.code.isLexical = true :=
    lex_isLexical source
  have hfound : ∀ diagnostic ∈ found, diagnostic.code.isLexical = false :=
    findingsIn_isLexical _ _ _ _
  have hreported : reported = (DiagnosticBag.mk (lexical ++ found)).sorted :=
    ofText_diagnostics source version
  refine ⟨?_, ?_, fun start => ?_, ?_, ?_⟩
  · rw [hreported, ← DiagnosticBag.sorted_filter, List.filter_append,
      List.filter_eq_self.mpr hlexical,
      List.filter_eq_nil_iff.mpr fun diagnostic hmem => by simp [hfound diagnostic hmem],
      List.append_nil]
    exact DiagnosticBag.sorted_of_pairwise
      ((lex_diagnostics_ordered source).imp fun hlt => Nat.le_of_lt hlt)
  · rw [hreported, ← DiagnosticBag.sorted_filter, List.filter_append,
      List.filter_eq_nil_iff.mpr fun diagnostic hmem => by simp [hlexical diagnostic hmem],
      List.filter_eq_self.mpr fun diagnostic hmem => by simp [hfound diagnostic hmem],
      List.nil_append]
  · rw [hreported, DiagnosticBag.sorted_at, List.filter_append]
  · rw [hreported]
    exact sorted_pairwise _
  · obtain ⟨script, hscript⟩ := Production.compilationUnit.scripted
    refine ⟨script, funext hscript, ?_⟩
    rw [Script.run_unit (funext hscript)]
    simp only [ParserSetting.ofTokens, closeTokens_lex]
    rfl

end SyntaxTree
end TolerantSyntax
