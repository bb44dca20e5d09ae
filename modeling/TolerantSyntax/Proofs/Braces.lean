import TolerantSyntax.Proofs.Recovery.Tree

/-!
# Braces of enclosing bodies

A statement or member takes no `}` that closes a body around it, whatever is skipped inside
of it, but for two places where recovery does not look for the `}`: an embedded statement
that is skipped, and a parameter without a name.
-/

namespace TolerantSyntax.SyntaxTree

open TokenKind (ClosesWithin)

/-- Every `}` that a statement or a member of a body takes closes a `{` in it, if recovery
takes no `}` as a statement and none behind a parameter without a name. -/
theorem ofText_closesOwn (source : String) (version : LanguageVersion) :
    ∀ visit ∈ (ofText source version).root.walk true,
      ∀ child ∈ visit.node.children, child.isStmtOrMember = true →
        (∀ fault ∈ child.faults, ¬fault.TakesBrace (.ofTokens (ofText source version).tokens)) →
        (ofText source version).tokens.holds child.range = true ∧
          ClosesWithin 0
            (((ofText source version).tokens.slice child.range).map (·.kind)) := by
  rw [ofText_root, ofText_tokens]
  intro visit hvisit child hchild hstep hclean
  obtain ⟨hholds, hwithin⟩ := ofSentence_within _ visit hvisit
  have hrange := (hholds.child hchild).wellNested.range
  have hstop := Nat.le_trans (hholds.wellNested.children child hchild).2 hwithin.2
  have hsize := Nat.le_trans hstop (TokenList.length_inner_le _)
  refine ⟨by simp [TokenList.holds, hrange, hsize], ?_⟩
  rw [Sentence.kinds_ofTokens hrange hstop]
  have hcloses : child.ClosesOwn (.ofTokens (lex source).tokens) :=
    ofSentence_keeps _ visit hvisit _ (Node.mem_entries_of_mem_children hchild)
  exact hcloses hstep hclean

theorem ofText_closesOwn_skipped :
    ∃ visit ∈ (ofText "class C { int M(in) { else { x = } } }" .v7_1).root.walk true,
      ∃ child ∈ visit.node.children, child.range = ⟨3, 15⟩ ∧
        (ofText "class C { int M(in) { else { x = } } }" .v7_1).tokens.holds child.range = true ∧
          ClosesWithin 0
            (((ofText "class C { int M(in) { else { x = } } }" .v7_1).tokens.slice
              child.range).map (·.kind)) := by
  have hchild : ∃ visit ∈ (ofText "class C { int M(in) { else { x = } } }" .v7_1).root.walk true,
      ∃ child ∈ visit.node.children, child.range = ⟨3, 15⟩ ∧ child.isStmtOrMember = true ∧
        ∀ fault ∈ child.faults, ¬fault.TakesBrace
          (.ofTokens (ofText "class C { int M(in) { else { x = } } }" .v7_1).tokens) := by
    decide +kernel
  obtain ⟨visit, hvisit, child, hmem, hrange, hstep, hclean⟩ := hchild
  exact ⟨visit, hvisit, child, hmem, hrange,
    ofText_closesOwn _ _ visit hvisit child hmem hstep hclean⟩

theorem ofText_takesBrace :
    (∃ visit ∈ (ofText "class C { void M(int } class D { }" .v7_1).root.walk true,
      ∃ child ∈ visit.node.children, child.isStmtOrMember = true ∧
        ¬ClosesWithin 0
          (((ofText "class C { void M(int } class D { }" .v7_1).tokens.slice
            child.range).map (·.kind))) ∧
      ∃ visit ∈ (ofText "class C { void M() { if (x) } int y; }" .v7_1).root.walk true,
        ∃ child ∈ visit.node.children, child.isStmtOrMember = true ∧
          ¬ClosesWithin 0
            (((ofText "class C { void M() { if (x) } int y; }" .v7_1).tokens.slice
              child.range).map (·.kind)) := by
  constructor
  · decide +kernel
  · decide +kernel

end TolerantSyntax.SyntaxTree
