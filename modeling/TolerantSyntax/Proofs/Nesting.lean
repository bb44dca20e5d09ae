import TolerantSyntax.Proofs.Builds.Member
import TolerantSyntax.Proofs.Fidelity
import TolerantSyntax.Tree.Walk

/-!
# Ranges are nested

The parts of every node fit into its range, from left to right.  This goes down from a
node to its children, and so along a walk.
-/

namespace TolerantSyntax

open Layout (Fits)

namespace Node

/-- The range of a node holds those of its children, which follow each other, and all
tokens that are stored in it. -/
structure WellNested (node : Node) : Prop where
  range : node.range.start ≤ node.range.stop
  children : ∀ child ∈ node.children, child.range.Within node.range
  ordered : node.children.Pairwise fun left right => left.range.Precedes right.range
  stored : ∀ index ∈ Layout.storedOf node.parts,
    node.range.start ≤ index ∧ index < node.range.stop

/-- The parts of a node fit into its range. -/
def Holds (node : Node) : Prop := Fits node.parts node.range.start node.range.stop

theorem Holds.children {node : Node} (h : node.Holds) :
    Fits (node.children.map (·.layout)) node.range.start node.range.stop := node.reveals.fits h

theorem range_layout (node : Node) : node.layout.range = node.range := by
  rw [layout_eq, Layout.range_branch]

theorem Holds.wellNested {node : Node} (h : node.Holds) : node.WellNested where
  range := h.le
  children := by
    intro child hmem
    rw [← child.range_layout]
    exact h.children.ranges_within _ (List.mem_map_of_mem hmem)
  ordered := by
    have hordered := List.pairwise_map.mp h.children.ranges_ordered
    simpa only [range_layout] using hordered
  stored := by
    intro index hmem
    obtain ⟨entry, hentry, rfl⟩ := List.mem_map.mp hmem
    exact h.leaves_bounds entry (List.mem_of_mem_filter hentry)

theorem Holds.child {node child : Node} (h : node.Holds) (hmem : child ∈ node.children) :
    child.Holds := by
  have hlayout := List.mem_map_of_mem (f := Node.layout) hmem
  rw [child.layout_eq] at hlayout
  exact h.children.inner hlayout

/-- What every child takes over from its node holds along a walk. -/
theorem forall_mem_walkOnto {P : Node → Prop} {intoTypes : Bool}
    (hchild : ∀ {node child : Node}, P node → child ∈ node.children → P child) {depth : Nat}
    {node : Node} {rest : List Visit} (hnode : P node) (hrest : ∀ visit ∈ rest, P visit.node) :
    ∀ visit ∈ walkOnto intoTypes depth node rest, P visit.node := by
  rw [walkOnto]
  refine List.forall_mem_cons.mpr ⟨hnode, ?_⟩
  induction (node.below intoTypes).attach with
  | nil => exact hrest
  | cons child others ih =>
      have hmem := mem_children_of_mem_below child.2
      exact forall_mem_walkOnto hchild (hchild hnode hmem) ih
termination_by sizeOf node
decreasing_by exact sizeOf_child_lt hmem

end Node

theorem CompilationUnit.forall_mem_walk {P : Node → Prop} {unit : CompilationUnit}
    {intoTypes : Bool}
    (hchild : ∀ {node child : Node}, P node → child ∈ node.children → P child)
    (hmember : ∀ member ∈ unit.members, P (.member member)) :
    ∀ visit ∈ unit.walk intoTypes, P visit.node := by
  unfold walk
  generalize unit.members = members at hmember
  induction members with
  | nil => exact nofun
  | cons member rest ih =>
      obtain ⟨hfirst, hrest⟩ := List.forall_mem_cons.mp hmember
      exact Node.forall_mem_walkOnto hchild hfirst (ih hrest)

namespace SyntaxTree

/-- Whatever the tokens are, the ranges of a tree are nested, those of one node from left
to right, and no token is stored twice. -/
theorem ofTokens_nested (source : String) (tokens : TokenList) (lexical : List Diagnostic)
    (version : LanguageVersion) :
    (ofTokens source tokens lexical version).root.layout.Nested ∧
      (ofTokens source tokens lexical version).root.stored.Nodup ∧
      ∀ visit ∈ (ofTokens source tokens lexical version).root.walk true,
        visit.node.WellNested := by
  rw [ofTokens_root]
  have hfits := ofSentence_fits (.ofTokens (closeTokens source tokens))
  refine ⟨?_, ?_, ?_⟩
  · exact .branch (Nat.zero_le _) hfits.ranges_within hfits.ranges_ordered hfits.nested
  · exact hfits.leaves_nodup.sublist (List.filter_sublist.map _)
  · intro visit hvisit
    refine (CompilationUnit.forall_mem_walk (P := Node.Holds) Node.Holds.child ?_ visit
      hvisit).wellNested
    intro member hmem
    exact hfits.inner (List.mem_append_left _ (List.mem_map_of_mem hmem))

end SyntaxTree
end TolerantSyntax
