import TolerantSyntax.Proofs.Nesting
import TolerantSyntax.Proofs.Postorder
import TolerantSyntax.Proofs.Subtree

/-!
# What a walk comes to

A walk into the types comes to every member, type, statement and expression of a tree once,
each in front of what is inside it, but for what stands in the name of a `using` directive or
of a namespace.
-/

namespace TolerantSyntax

namespace Node

theorem held_false (node : Node) : node.held false = node.children := rfl

def inName (node : Node) : List Node := node.name?.toList.flatMap (·.subtree)

theorem flatMap_held_true (node : Node) :
    (node.held true).flatMap (subtree true) =
      node.inName ++ node.children.flatMap (subtree true) := by
  simp [held, inName, List.flatMap_map, subtree]

theorem below_true (node : Node) : node.below true = node.children := by
  cases node <;> rfl

theorem nodes_walkOnto (depth : Nat) (node : Node) (rest : List Visit) :
    (walkOnto true depth node rest).map (·.node) =
      node.subtree false ++ rest.map (·.node) := by
  rw [walkOnto, subtree_eq, held_false, List.map_cons, List.cons_append]
  congr 1
  have hattach : node.children =
      (node.below true).attach.map Subtype.val := by
    rw [List.attach_map_subtype_val, below_true]
  rw [hattach]
  induction (node.below true).attach with
  | nil => rfl
  | cons child others ih =>
      have hmem := mem_children_of_mem_below child.2
      rw [List.foldr_cons, nodes_walkOnto, ih, List.map_cons, List.flatMap_cons,
        List.append_assoc]
termination_by sizeOf node
decreasing_by exact sizeOf_child_lt hmem

theorem subtree_sublist (node : Node) : (node.subtree false).Sublist (node.subtree true) := by
  have hchildren : ∀ child ∈ node.children,
      (child.subtree false).Sublist (child.subtree true) :=
    fun child hmem => child.subtree_sublist
  rw [subtree_eq false, subtree_eq true, held_false, flatMap_held_true]
  refine .cons_cons node (.trans ?_ (List.sublist_append_right _ _))
  revert hchildren
  induction node.children with
  | nil => exact fun _ => .slnil
  | cons child rest ih =>
      intro hchildren
      obtain ⟨hchild, hrest⟩ := List.forall_mem_cons.mp hchildren
      rw [List.flatMap_cons, List.flatMap_cons]
      exact hchild.append (ih hrest)
termination_by sizeOf node
decreasing_by exact sizeOf_child_lt hmem

/-- What a walk leaves out is what stands in the names of the nodes that it comes to. -/
theorem subtree_perm (node : Node) :
    (node.subtree true).Perm (node.subtree false ++ (node.subtree false).flatMap inName) := by
  have hchildren : ∀ child ∈ node.children, (child.subtree true).Perm
      (child.subtree false ++ (child.subtree false).flatMap inName) :=
    fun child hmem => child.subtree_perm
  rw [subtree_eq true, subtree_eq false, held_false, flatMap_held_true, List.flatMap_cons,
    List.cons_append]
  refine .cons node ?_
  calc
    (node.inName ++ node.children.flatMap (subtree true)).Perm
        (node.inName ++ node.children.flatMap fun child =>
          child.subtree false ++ (child.subtree false).flatMap inName) :=
      .append_left _ (.flatMap_left _ hchildren)
    List.Perm _ (node.inName ++ (node.children.flatMap (subtree false) ++
        node.children.flatMap fun child => (child.subtree false).flatMap inName)) :=
      .append_left _ (List.flatMap_append_perm ..).symm
    List.Perm _ (node.children.flatMap (subtree false) ++ (node.inName ++
        (node.children.flatMap (subtree false)).flatMap inName)) := by
      rw [List.flatMap_assoc]
      exact List.perm_append_comm_assoc ..
termination_by sizeOf node
decreasing_by exact sizeOf_child_lt hmem

/-- The same expressions stand in front of their children in a walk, and behind them in the
table. -/
theorem exprs_subtree (node : Node) :
    ((node.subtree false).filterMap expr?).Perm node.postorder := by
  have hchildren : ∀ child ∈ node.children,
      ((child.subtree false).filterMap expr?).Perm child.postorder :=
    fun child hmem => child.exprs_subtree
  have hnode : (node :: node.children.flatMap (subtree false)).filterMap expr? =
      node.expr?.toList ++
        node.children.flatMap fun child => (child.subtree false).filterMap expr? := by
    rw [← List.filterMap_flatMap]
    cases node <;> rfl
  rw [subtree_eq, held_false, postorder_eq, hnode]
  exact List.perm_append_comm.trans (.append_right _ (.flatMap_left _ hchildren))
termination_by sizeOf node
decreasing_by exact sizeOf_child_lt hmem

end Node

namespace CompilationUnit

/-- The members, types, statements and expressions of a tree, with those in the names of
`using` directives and namespaces or without them. -/
def nodes (unit : CompilationUnit) (named : Bool) : List Node := memberSubtrees named unit.members

theorem nodes_eq (unit : CompilationUnit) (named : Bool) :
    unit.nodes named = unit.members.flatMap fun member => (Node.member member).subtree named := by
  rw [nodes, memberSubtrees_eq, List.flatMap_map]

theorem nodes_walk (unit : CompilationUnit) :
    (unit.walk true).map (·.node) = unit.nodes false := by
  rw [walk, nodes_eq]
  induction unit.members with
  | nil => rfl
  | cons member rest ih => rw [List.foldr_cons, Node.nodes_walkOnto, ih, List.flatMap_cons]

theorem nodes_sublist (unit : CompilationUnit) :
    (unit.nodes false).Sublist (unit.nodes true) := by
  rw [nodes_eq, nodes_eq]
  induction unit.members with
  | nil => exact .slnil
  | cons member rest ih => exact (Node.member member).subtree_sublist.append ih

theorem nodes_perm (unit : CompilationUnit) :
    (unit.nodes true).Perm (unit.nodes false ++ (unit.nodes false).flatMap Node.inName) := by
  rw [nodes_eq, nodes_eq, List.flatMap_assoc]
  exact .trans (.flatMap_left _ fun member _ => (Node.member member).subtree_perm)
    (List.flatMap_append_perm ..).symm

theorem exprs_nodes (unit : CompilationUnit) :
    ((unit.nodes false).filterMap Node.expr?).Perm unit.postorder := by
  rw [nodes_eq, List.filterMap_flatMap, postorder]
  exact .flatMap_left _ fun member _ => (Node.member member).exprs_subtree

end CompilationUnit

namespace SyntaxTree

theorem ofSentence_members_ordered (sentence : Sentence) :
    (ofSentence sentence).1.members.Pairwise
      fun left right => left.range.Precedes right.range := by
  have hordered := (List.pairwise_append.mp (ofSentence_fits sentence).ranges_ordered).1
  rw [List.pairwise_map] at hordered
  exact hordered

/-- A walk over a tree lists its nodes in preorder, each once, and siblings in the order of the
text.  What it leaves out are the types in the names of `using` directives and namespaces. -/
theorem ofTokens_walk (source : String) (tokens : TokenList) (lexical : List Diagnostic)
    (version : LanguageVersion) :
    let tree := ofTokens source tokens lexical version
    (tree.root.walk true).map (·.node) = tree.root.nodes false ∧
      (tree.root.nodes false).Sublist (tree.root.nodes true) ∧
      (tree.root.nodes true).Perm
        (tree.root.nodes false ++ (tree.root.nodes false).flatMap Node.inName) ∧
      ((tree.root.nodes false).filterMap Node.expr?).Perm tree.exprs.toList ∧
      (tree.root.members.Pairwise fun left right => left.range.Precedes right.range) ∧
      ∀ visit ∈ tree.root.walk true,
        visit.node.children.Pairwise fun left right => left.range.Precedes right.range := by
  intro tree
  have hexprs := (ofTokens_postorder source tokens lexical version).1
  have hnested := (ofTokens_nested source tokens lexical version).2.2
  refine ⟨tree.root.nodes_walk, tree.root.nodes_sublist, tree.root.nodes_perm,
    hexprs ▸ tree.root.exprs_nodes, ?_, fun visit hvisit => (hnested visit hvisit).ordered⟩
  rw [ofTokens_root]
  exact ofSentence_members_ordered _

theorem ofText_walk_misses_name :
    ¬(((ofText "using A;" .v7_1).root.walk true).map (·.node)).Perm
      ((ofText "using A;" .v7_1).root.nodes true) := by
  have hall : ((ofText "using A;" .v7_1).root.nodes true).length = 2 := by decide +kernel
  have hvisited : ((ofText "using A;" .v7_1).root.nodes false).length = 1 := by decide +kernel
  intro hperm
  have hlength := hperm.length_eq
  rw [CompilationUnit.nodes_walk, hvisited, hall] at hlength
  exact absurd hlength (by decide)

end SyntaxTree
end TolerantSyntax
