import TolerantSyntax.Proofs.Builds.Member
import TolerantSyntax.Proofs.Diagnostics

/-!
# Features that a text uses

A tree says which features its text uses and at which tokens.  What a version reports as
not available are those uses whose features it lacks, each once, and nothing else: neither
a lexical error nor an attempt that was given up adds to them.
-/

namespace TolerantSyntax

def Diagnostic.isFeature (diagnostic : Diagnostic) : Bool :=
  diagnostic.code == .featureNotAvailableInVersion

theorem Diagnostic.isFeature_of_code {diagnostic : Diagnostic}
    (h : diagnostic.code ≠ .featureNotAvailableInVersion) : diagnostic.isFeature = false :=
  beq_eq_false_iff_ne.mpr h

namespace FeatureUse

def isLackedBy (version : LanguageVersion) (use : FeatureUse) : Bool :=
  !use.feature.isAvailable version

def diagnostic (tokens : TokenList) (use : FeatureUse) : Diagnostic :=
  .featureNotAvailable (Finding.spanAt tokens use.token) use.feature.displayName
    use.feature.required.name

end FeatureUse

theorem Feature.check?_eq (feature : Feature) (version : LanguageVersion) (tokens : TokenList)
    (token : Nat) :
    feature.check? version (Finding.spanAt tokens token) =
      ((some ⟨feature, token⟩ : Option FeatureUse).filter (·.isLackedBy version)).map
        (·.diagnostic tokens) := by
  rw [check?, Option.filter_some, FeatureUse.isLackedBy]
  cases feature.isAvailable version <;> rfl

theorem Finding.diagnostic?_filter (source : String) (tokens : TokenList)
    (version : LanguageVersion) (finding : Finding) :
    (finding.diagnostic? source tokens version).filter (·.isFeature) =
      (finding.use?.filter (·.isLackedBy version)).map (·.diagnostic tokens) := by
  cases herror : finding.isError with
  | true =>
      obtain ⟨diagnostic, hcode, hsome⟩ := diagnostic?_of_isError herror source tokens
      have huse : finding.use? = none := by
        cases finding with
        | uses feature place => exact absurd herror (by simp [isError])
        | _ => rfl
      rw [hsome, Option.filter_some, Diagnostic.isFeature_of_code hcode, huse]
      rfl
  | false =>
      cases finding with
      | uses feature place =>
          have hcheck := feature.check?_eq version tokens place
          have hfeature : (feature.check? version (spanAt tokens place)).filter (·.isFeature) =
              feature.check? version (spanAt tokens place) := by
            unfold Feature.check?
            split <;> rfl
          exact hfeature.trans hcheck
      | _ => exact absurd herror (by simp [isError])

namespace SyntaxTree

theorem findingsIn_features (source : String) (tokens : TokenList) (version : LanguageVersion)
    (state : ParseState) :
    (findingsIn source tokens version state).filter (·.isFeature) =
      ((state.findings.reverse.filterMap (·.use?)).filter (·.isLackedBy version)).map
        (·.diagnostic tokens) := by
  rw [findingsIn, List.filter_filterMap, List.filter_filterMap, List.map_filterMap]
  exact List.filterMap_congr fun finding _ => finding.diagnostic?_filter source tokens version

theorem lexical_features (source : String) :
    (lex source).diagnostics.filter (·.isFeature) = [] := by
  refine List.filter_eq_nil_iff.mpr fun diagnostic hmem => ?_
  rw [Diagnostic.isFeature_of_code (lex_plain source diagnostic hmem)]
  exact Bool.false_ne_true

theorem ofSentence_noted (sentence : Sentence) :
    ((ofSentence sentence).2.findings.reverse.filterMap (·.use?)).Perm
      (ofSentence sentence).1.uses :=
  ((List.reverse_perm _).filterMap _).trans (Multiset.coe_eq_coe.mp (ofSentence_uses sentence))

/-- The diagnostics about features report the uses in the tree whose features the version
lacks.  No token begins two uses. -/
theorem ofText_features (source : String) (version : LanguageVersion) :
    ((ofText source version).diagnostics.filter (·.isFeature)).Perm
        (((ofText source version).root.uses.filter (·.isLackedBy version)).map
          (·.diagnostic (ofText source version).tokens)) ∧
      ((ofText source version).root.uses.map (·.token)).Nodup := by
  rw [ofText_diagnostics, ofText_root, ofText_tokens]
  generalize Sentence.ofTokens (lex source).tokens = sentence
  constructor
  · refine ((List.mergeSort_perm _ _).filter _).trans ?_
    rw [List.filter_append, lexical_features, List.nil_append, findingsIn_features]
    exact ((ofSentence_noted sentence).filter _).map _
  · rw [List.nodup_iff_pairwise_ne, List.pairwise_map]
    exact (ofSentence_fits sentence).uses_ordered.imp Nat.ne_of_lt

example : (ofText "class C { readonly ref int M() => ref x; }" .v1).root.uses =
    [⟨.readonlyReferences, 3⟩, ⟨.expressionBodiedMembers, 9⟩, ⟨.refLocalsAndReturns, 10⟩] := by
  decide +kernel

end SyntaxTree
end TolerantSyntax
