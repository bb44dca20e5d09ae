import TolerantSyntax.Proofs.Diagnostics
import TolerantSyntax.Proofs.Speculation.Production

/-!
# Versions

The version decides which uses of features are diagnostics, and nothing else.  A newer
version drops the diagnostics of the features that it has; sorting is stable, so what is
left stays in its order.
-/

namespace TolerantSyntax

/-- Whether a diagnostic reports a feature that the version has: its second argument names
the version required. -/
def Diagnostic.isMetBy (version : LanguageVersion) (diagnostic : Diagnostic) : Bool :=
  diagnostic.code == .featureNotAvailableInVersion &&
    (diagnostic.args[1]?.bind LanguageVersion.ofText?).any (· ≤ version)

theorem Diagnostic.isMetBy_of_code {version : LanguageVersion} {diagnostic : Diagnostic}
    (h : diagnostic.code ≠ .featureNotAvailableInVersion) :
    diagnostic.isMetBy version = false := by
  unfold isMetBy
  rw [beq_eq_false_iff_ne.mpr h, Bool.false_and]

theorem LanguageVersion.ofText?_name (version : LanguageVersion) :
    ofText? version.name = some version := by
  cases version <;> decide +kernel

theorem LanguageVersion.le_trans {first second third : LanguageVersion}
    (hfirst : first ≤ second) (hsecond : second ≤ third) : first ≤ third :=
  Nat.le_trans (m := second.rank) hfirst hsecond

theorem Feature.isMetBy_check (feature : Feature) (version : LanguageVersion) (span : Span) :
    (Diagnostic.featureNotAvailable span feature.displayName feature.required.name).isMetBy
      version = feature.isAvailable version := by
  have hrequired := LanguageVersion.ofText?_name feature.required
  simp [Diagnostic.isMetBy, Diagnostic.featureNotAvailable, Diagnostic.error, hrequired,
    isAvailable]

/-- What a newer version reports for a use is what an older one does, unless it has the
feature. -/
theorem Feature.check?_newer {older newer : LanguageVersion} (h : older ≤ newer)
    (feature : Feature) (span : Span) :
    feature.check? newer span =
      (feature.check? older span).filter fun diagnostic => !diagnostic.isMetBy newer := by
  unfold check?
  by_cases holder : feature.isAvailable older = true
  · have hnewer : feature.isAvailable newer = true := by
      simp only [isAvailable, decide_eq_true_eq] at holder ⊢
      exact LanguageVersion.le_trans holder h
    rw [if_pos holder, if_pos hnewer, Option.filter_none]
  · rw [if_neg holder, Option.filter_some, isMetBy_check]
    cases hnewer : feature.isAvailable newer with
    | true => simp
    | false => simp

theorem LanguageVersion.le_latest (version : LanguageVersion) : version ≤ latest := by
  cases version <;> decide

theorem Feature.check?_latest (feature : Feature) (span : Span) :
    feature.check? .latest span = none := by
  have havailable : feature.isAvailable .latest = true := by
    simp [isAvailable, LanguageVersion.le_latest]
  rw [check?, if_pos havailable]

theorem Finding.diagnostic?_newer {older newer : LanguageVersion} (h : older ≤ newer)
    (source : String) (tokens : TokenList) (finding : Finding) :
    finding.diagnostic? source tokens newer =
      (finding.diagnostic? source tokens older).filter fun diagnostic =>
        !diagnostic.isMetBy newer := by
  cases herror : finding.isError with
  | true =>
      obtain ⟨diagnostic, hcode, hsome⟩ := diagnostic?_of_isError herror source tokens
      rw [hsome, hsome, Option.filter_some, Diagnostic.isMetBy_of_code hcode]
      rfl
  | false =>
      cases finding with
      | uses feature place => exact feature.check?_newer h (spanAt tokens place)
      | _ => exact absurd herror (by simp [isError])

theorem Finding.diagnostic?_latest {source : String} {tokens : TokenList} {finding : Finding}
    {diagnostic : Diagnostic}
    (h : finding.diagnostic? source tokens .latest = some diagnostic) :
    diagnostic.code ≠ .featureNotAvailableInVersion := by
  cases herror : finding.isError with
  | true =>
      obtain ⟨other, hcode, hsome⟩ := diagnostic?_of_isError herror source tokens
      rw [hsome] at h
      cases h
      exact hcode
  | false =>
      cases finding with
      | uses feature place =>
          have hnone := feature.check?_latest (spanAt tokens place)
          exact absurd (hnone.symm.trans h) nofun
      | _ => exact absurd herror (by simp [isError])

namespace SyntaxTree

theorem findingsIn_newer {older newer : LanguageVersion} (h : older ≤ newer)
    (source : String) (tokens : TokenList) (state : ParseState) :
    findingsIn source tokens newer state =
      (findingsIn source tokens older state).filter fun diagnostic =>
        !diagnostic.isMetBy newer := by
  unfold findingsIn
  rw [List.filter_filterMap]
  congr 1
  funext finding
  exact finding.diagnostic?_newer h source tokens

theorem lexical_filter (source : String) (version : LanguageVersion) :
    (lex source).diagnostics.filter (fun diagnostic => !diagnostic.isMetBy version) =
      (lex source).diagnostics := by
  rw [List.filter_eq_self]
  intro diagnostic hmem
  rw [Diagnostic.isMetBy_of_code (lex_plain source diagnostic hmem)]
  rfl

/-- A newer version reads the same tree from a text, and reports what an older one does but
for the features that it has.  The latest has them all.  The version is asked where a use is
reported, and what an attempt has reported is cut off again: it is one parser, changed in place,
that ends with the tree of whatever version it is given. -/
theorem ofText_newer {older newer : LanguageVersion} (h : older ≤ newer) (source : String) :
    (ofText source newer).root = (ofText source older).root ∧
      (ofText source newer).exprs = (ofText source older).exprs ∧
      (ofText source newer).tokens = (ofText source older).tokens ∧
      (ofText source newer).diagnostics =
        (ofText source older).diagnostics.filter (fun diagnostic => !diagnostic.isMetBy newer) ∧
      (∀ diagnostic ∈ (ofText source .latest).diagnostics,
        diagnostic.code ≠ .featureNotAvailableInVersion) ∧
      ∃ script : Script CompilationUnit, script.parse = Production.compilationUnit.parse ∧
        ∀ version, script.EndsWith (.ofTokens source (lex source).tokens version)
          (lex source).diagnostics (ofText source version) := by
  refine ⟨?_, ?_, ?_, ?_, ?_, ?_⟩
  · rw [ofText_root, ofText_root]
  · rw [ofText_exprs, ofText_exprs]
  · rw [ofText_tokens, ofText_tokens]
  · rw [ofText_diagnostics, ofText_diagnostics, findingsIn_newer h,
      ← DiagnosticBag.sorted_filter, List.filter_append, lexical_filter]
  · intro diagnostic hmem
    rcases mem_diagnostics.mp hmem with hmem | hmem
    · exact lex_plain source diagnostic hmem
    · obtain ⟨finding, -, hsome⟩ := List.mem_filterMap.mp hmem
      exact Finding.diagnostic?_latest hsome
  · obtain ⟨script, hscript⟩ := Production.compilationUnit.scripted
    exact ⟨script, funext hscript, fun version => ofTokens_in_place (funext hscript) ..⟩

theorem ofText_newer_tuple_field :
    LanguageVersion.v1 ≤ .v7 ∧
      (ofText "class C { (int, int) f; }" .v7).root =
        (ofText "class C { (int, int) f; }" .v1).root ∧
      (ofText "class C { (int, int) f; }" .v7).exprs =
        (ofText "class C { (int, int) f; }" .v1).exprs ∧
      (ofText "class C { (int, int) f; }" .v7).tokens =
        (ofText "class C { (int, int) f; }" .v1).tokens ∧
      (ofText "class C { (int, int) f; }" .v7).diagnostics =
        (ofText "class C { (int, int) f; }" .v1).diagnostics.filter
          (fun diagnostic => !diagnostic.isMetBy .v7) ∧
      (∀ diagnostic ∈ (ofText "class C { (int, int) f; }" .latest).diagnostics,
        diagnostic.code ≠ .featureNotAvailableInVersion) ∧
      ∃ script : Script CompilationUnit, script.parse = Production.compilationUnit.parse ∧
        ∀ version, script.EndsWith
          (.ofTokens "class C { (int, int) f; }" (lex "class C { (int, int) f; }").tokens version)
          (lex "class C { (int, int) f; }").diagnostics
          (ofText "class C { (int, int) f; }" version) := by
  have hle : LanguageVersion.v1 ≤ .v7 := by decide
  exact ⟨hle, ofText_newer hle "class C { (int, int) f; }"⟩

end SyntaxTree
end TolerantSyntax
