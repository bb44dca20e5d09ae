import TolerantSyntax.Proofs.Nesting
import TolerantSyntax.Proofs.Recovery.Member

/-!
# Recovery in whole trees

The findings of a tree that come with faults are those of the faults in it.  Along a walk
every node keeps its bodies and braces, and what it says about symbols it says about tokens.
-/

namespace TolerantSyntax

theorem TokenRange.Tile.within {ranges : List TokenRange} {start stop : Nat}
    (h : Tile ranges start stop) : ∀ range ∈ ranges, range.Within ⟨start, stop⟩ := by
  induction h with
  | nil start => exact nofun
  | cons hlt hrest ih =>
      have hle := Nat.le_of_lt hlt
      refine List.forall_mem_cons.mpr ⟨⟨Nat.le_refl _, hrest.le⟩, fun range hmem => ?_⟩
      exact (ih range hmem).from_le hle

namespace Sentence

theorem map_kind_get? {tokens : TokenList} {index : Nat} {kind : TokenKind}
    (h : (ofTokens tokens).kindAt index = kind) (hkind : kind ≠ .eof) :
    (tokens.get? index).map (·.kind) = some kind := by
  have hindex := lt_size_of_kindAt (ne_of_eq_of_ne h hkind)
  rw [size_ofTokens] at hindex
  rw [TokenList.get?, ← Array.getElem?_toList, TokenList.getElem?_inner hindex, Option.map_some,
    ← kindAt_of_lt hindex, h]

theorem kinds_ofTokens {tokens : TokenList} {range : TokenRange}
    (hrange : range.start ≤ range.stop) (hstop : range.stop ≤ tokens.inner.length) :
    (tokens.slice range).map (·.kind) = (ofTokens tokens).kinds range.start range.stop := by
  have hsize : range.stop ≤ tokens.size := Nat.le_trans hstop tokens.length_inner_le
  rw [TokenList.slice_of_tile hrange hsize, kinds, TokenRange.length]
  apply List.ext_getElem?
  intro offset
  simp only [List.getElem?_map]
  by_cases hoffset : offset < range.stop - range.start
  · have hindex : range.start + offset < tokens.inner.length := by omega
    rw [List.getElem?_take_of_lt hoffset, List.getElem?_drop, TokenList.getElem?_inner hindex,
      List.getElem?_range' hoffset, Option.map_some, Option.map_some, Nat.one_mul,
      kindAt_of_lt hindex]
  · rw [List.getElem?_take, if_neg hoffset, List.getElem?_eq_none (by simpa using hoffset)]
    rfl

end Sentence

namespace SyntaxTree

theorem ofSentence_accounts (sentence : Sentence) :
    sentence.Accounts ((ofSentence sentence).1.members.map fun member => .node (.member member))
      .start (ofSentence sentence).2 :=
  @Parse.compilationUnit_accounts (.ofSentence sentence) .start

theorem ofSentence_told (sentence : Sentence) :
    ((ofSentence sentence).2.findings.filter (·.tellsFault)).Perm
      ((ofSentence sentence).1.faults.filterMap Fault.finding?) := by
  have htold := (ofSentence_accounts sentence).told
  have hfaults : Entry.faultsOf ((ofSentence sentence).1.members.map fun member =>
      .node (.member member)) = (ofSentence sentence).1.faults := by
    rw [Entry.faultsOf, List.flatMap_map]
    rfl
  rw [hfaults] at htold
  exact Multiset.coe_eq_coe.mp (htold.trans (Multiset.zero_add _))

theorem ofSentence_sound (sentence : Sentence) :
    ∀ finding ∈ (ofSentence sentence).2.findings, finding.Sound sentence :=
  (ofSentence_accounts sentence).sound (Nat.zero_le _) nofun

theorem ofSentence_keeps (sentence : Sentence) :
    ∀ visit ∈ (ofSentence sentence).1.walk true, visit.node.Keeps sentence := by
  intro visit hvisit
  refine (CompilationUnit.forall_mem_walk (P := Node.Throughout (·.Keeps sentence))
    Node.Throughout.child ?_ visit hvisit).here
  intro member hmem
  exact (ofSentence_accounts sentence).inside _ (List.mem_map_of_mem hmem)

theorem ofSentence_within (tokens : TokenList) :
    ∀ visit ∈ (ofSentence (.ofTokens tokens)).1.walk true,
      visit.node.Holds ∧ visit.node.range.Within ⟨0, tokens.inner.length⟩ := by
  have hfits := ofSentence_fits (.ofTokens tokens)
  obtain ⟨-, -, htile, -⟩ := ofSentence_covers tokens
  apply CompilationUnit.forall_mem_walk
    (P := fun node => node.Holds ∧ node.range.Within ⟨0, tokens.inner.length⟩)
  · rintro node child ⟨hholds, hwithin⟩ hmem
    have hchild := hholds.wellNested.children child hmem
    exact ⟨hholds.child hmem, Nat.le_trans hwithin.1 hchild.1, Nat.le_trans hchild.2 hwithin.2⟩
  · intro member hmem
    exact ⟨hfits.inner (List.mem_append_left _ (List.mem_map_of_mem hmem)),
      htile.within _ (List.mem_map_of_mem hmem)⟩

end SyntaxTree
end TolerantSyntax
