import TolerantSyntax.Proofs.Fidelity

/-!
# Diagnostics of a tree

The diagnostics of a text are the lexical errors and what becomes of the findings, sorted
by their starts.  Every finding that is an error becomes a diagnostic, the same for every
version, and only uses of features report that a feature is not available.
-/

namespace TolerantSyntax

theorem Finding.tokenAt_inner {tokens : TokenList} {index : Nat}
    (h : index < tokens.inner.length) : tokenAt tokens index = tokens.inner[index] := by
  rw [tokenAt, TokenList.get?, ← Array.getElem?_toList, TokenList.getElem?_inner h]
  rfl

theorem Finding.kindAt_inner {tokens : TokenList} {index : Nat}
    (h : index < tokens.inner.length) :
    (Sentence.ofTokens tokens).kindAt index = (tokenAt tokens index).kind := by
  rw [Sentence.kindAt_of_lt h, tokenAt_inner h]

theorem Finding.absentDiagnostic_code (source : String) (tokens : TokenList)
    (kind : TokenKind) (index : Nat) :
    (absentDiagnostic source tokens kind index).code ≠ .featureNotAvailableInVersion := by
  unfold absentDiagnostic
  simp only
  split <;> exact nofun

theorem Finding.diagnostic?_of_isError {finding : Finding} (h : finding.isError = true)
    (source : String) (tokens : TokenList) :
    ∃ diagnostic, diagnostic.code ≠ .featureNotAvailableInVersion ∧
      ∀ version, finding.diagnostic? source tokens version = some diagnostic := by
  cases finding with
  | absent kind place =>
      exact ⟨_, absentDiagnostic_code source tokens kind place, fun version => rfl⟩
  | uses feature place => exact absurd h (by simp [isError])
  | _ =>
      refine ⟨_, ?_, fun version => rfl⟩
      exact nofun

theorem Lexeme.diagnostic?_code {lexeme : Lexeme} {diagnostic : Diagnostic}
    (h : lexeme.diagnostic? = some diagnostic) :
    diagnostic.code ≠ .featureNotAvailableInVersion := by
  unfold diagnostic? at h
  repeat' split at h
  all_goals cases h
  all_goals exact nofun

namespace Lexer

def Plain (reported : List Diagnostic) : Prop :=
  ∀ diagnostic ∈ reported, diagnostic.code ≠ .featureNotAvailableInVersion

theorem report_plain {run : List Lexeme} {reported : List Diagnostic} (h : Plain reported) :
    Plain (report run reported) := by
  intro diagnostic hmem
  rcases List.mem_append.mp hmem with hmem | hmem
  · obtain ⟨lexeme, -, hsome⟩ := List.mem_filterMap.mp (List.mem_reverse.mp hmem)
    exact Lexeme.diagnostic?_code hsome
  · exact h diagnostic hmem

theorem next_plain {lexer : Lexer} (h : Plain lexer.reported) :
    Plain lexer.next.2.reported := by
  unfold next
  simp only
  split
  · split <;> exact report_plain h
  · exact report_plain (report_plain h)

theorem drain_plain {fuel : Nat} {lexer : Lexer} {tokens : TokenList}
    (h : Plain lexer.reported) : Plain (lexer.drain fuel tokens).diagnostics := by
  have hreverse : ∀ {lexer : Lexer}, Plain lexer.reported → Plain lexer.diagnostics := by
    intro lexer hreported diagnostic hmem
    exact hreported diagnostic (List.mem_reverse.mp hmem)
  induction fuel generalizing lexer tokens with
  | zero => exact hreverse h
  | succ fuel ih =>
      rw [drain_succ]
      split
      · exact hreverse (next_plain h)
      · exact ih (next_plain h)

end Lexer

theorem lex_plain (source : String) : Lexer.Plain (lex source).diagnostics :=
  Lexer.drain_plain nofun

namespace DiagnosticBag

theorem start_le_trans (a b c : Diagnostic) (hab : decide (a.span.start ≤ b.span.start) = true)
    (hbc : decide (b.span.start ≤ c.span.start) = true) :
    decide (a.span.start ≤ c.span.start) = true := by
  simp only [decide_eq_true_eq] at hab hbc ⊢
  omega

theorem start_le_total (a b : Diagnostic) :
    (decide (a.span.start ≤ b.span.start) || decide (b.span.start ≤ a.span.start)) = true := by
  simp only [Bool.or_eq_true, decide_eq_true_eq]
  omega

/-- A diagnostic in front of others goes in behind those that start before it. -/
theorem sorted_cons (first : Diagnostic) (rest : List Diagnostic) :
    ∃ before behind, (mk (first :: rest)).sorted = before ++ first :: behind ∧
      (mk rest).sorted = before ++ behind ∧
      (∀ other ∈ before, other.span.start < first.span.start) ∧
      ∀ other ∈ behind, first.span.start ≤ other.span.start := by
  obtain ⟨before, behind, hcons, hrest, hbefore⟩ :=
    List.mergeSort_cons start_le_trans start_le_total first rest
  have hpairwise := List.pairwise_mergeSort start_le_trans start_le_total (first :: rest)
  rw [hcons, List.pairwise_append, List.pairwise_cons] at hpairwise
  obtain ⟨-, ⟨hbehind, -⟩, -⟩ := hpairwise
  refine ⟨before, behind, hcons, hrest, ?_, ?_⟩
  · intro other hmem
    simpa using hbefore other hmem
  · intro other hmem
    simpa using hbehind other hmem

theorem append_inj_of_start {left left' right right' : List Diagnostic} {start : Nat}
    (h : left ++ right = left' ++ right') (hleft : ∀ other ∈ left, other.span.start < start)
    (hleft' : ∀ other ∈ left', other.span.start < start)
    (hright : ∀ other ∈ right, start ≤ other.span.start)
    (hright' : ∀ other ∈ right', start ≤ other.span.start) :
    left = left' ∧ right = right' := by
  have hfront : ∀ {front back : List Diagnostic},
      (∀ other ∈ front, other.span.start < start) → (∀ other ∈ back, start ≤ other.span.start) →
      (front ++ back).filter (fun other => other.span.start < start) = front := by
    intro front back hfront hback
    rw [List.filter_append, List.filter_eq_self.mpr, List.filter_eq_nil_iff.mpr, List.append_nil]
    · intro other hmem
      simpa using hback other hmem
    · intro other hmem
      simpa using hfront other hmem
  have hsame : left = left' := by rw [← hfront hleft hright, h, hfront hleft' hright']
  subst hsame
  exact ⟨rfl, List.append_cancel_left h⟩

theorem sorted_filter (keep : Diagnostic → Bool) (diagnostics : List Diagnostic) :
    (mk (diagnostics.filter keep)).sorted = (mk diagnostics).sorted.filter keep := by
  induction diagnostics with
  | nil => simp [sorted]
  | cons first rest ih =>
      obtain ⟨before, behind, hcons, hrest, hbefore, hbehind⟩ := sorted_cons first rest
      rw [hrest, List.filter_append] at ih
      rw [hcons, List.filter_append]
      cases hkeep : keep first with
      | true =>
          obtain ⟨before', behind', hcons', hrest', hbefore', hbehind'⟩ :=
            sorted_cons first (rest.filter keep)
          rw [ih] at hrest'
          obtain ⟨rfl, rfl⟩ := append_inj_of_start hrest'
            (fun other hmem => hbefore other (List.mem_of_mem_filter hmem)) hbefore'
            (fun other hmem => hbehind other (List.mem_of_mem_filter hmem)) hbehind'
          rw [List.filter_cons_of_pos hkeep, List.filter_cons_of_pos hkeep, hcons']
      | false =>
          have hdrop : ¬keep first = true := by simp [hkeep]
          rw [List.filter_cons_of_neg hdrop, List.filter_cons_of_neg hdrop, ih]

end DiagnosticBag

namespace SyntaxTree

theorem mem_diagnostics {source : String} {version : LanguageVersion}
    {diagnostic : Diagnostic} :
    diagnostic ∈ (ofText source version).diagnostics ↔
      diagnostic ∈ (lex source).diagnostics ∨
        diagnostic ∈ findingsIn source (lex source).tokens version
          (ofSentence (.ofTokens (lex source).tokens)).2 := by
  rw [ofText_diagnostics, DiagnosticBag.sorted, List.mem_mergeSort, List.mem_append]

end SyntaxTree
end TolerantSyntax
