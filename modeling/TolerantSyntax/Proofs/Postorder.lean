import TolerantSyntax.Proofs.Builds.Member
import TolerantSyntax.Proofs.Fidelity

/-!
# Expressions in the order of a walk

A walk that lists every expression behind its children lists the table of a tree: each
expression once, at its number.  So a child has a smaller number than its parent.
-/

namespace TolerantSyntax

namespace Node

/-- The expressions of a node, each behind those below it. -/
def postorder (node : Node) : List Expr :=
  node.children.attach.flatMap (fun child => postorder child.1) ++ node.expr?.toList
termination_by sizeOf node
decreasing_by exact sizeOf_child_lt child.2

theorem postorder_eq (node : Node) :
    node.postorder = node.children.flatMap postorder ++ node.expr?.toList := by
  have hattach : node.children.attach.flatMap (fun child => postorder child.1) =
      (node.children.attach.map Subtype.val).flatMap postorder := by rw [List.flatMap_map]
  rw [postorder, hattach, List.attach_map_subtype_val]

theorem exprs_layout (node : Node) : node.layout.exprs = node.postorder := by
  have hchildren : ∀ child ∈ node.children, child.layout.exprs = child.postorder :=
    fun child hmem => child.exprs_layout
  rw [layout_eq, Layout.exprs_branch, node.reveals.exprsOf_eq, postorder_eq,
    Layout.exprsOf_eq_flatMap, List.flatMap_map, List.flatMap_congr hchildren]
termination_by sizeOf node
decreasing_by exact sizeOf_child_lt hmem

theorem postorder_expr (expr : Expr) :
    (Node.expr expr).postorder = (Node.expr expr).children.flatMap postorder ++ [expr] :=
  postorder_eq _

theorem postorder_infix_of_mem {node : Node} {expr : Expr} (h : expr ∈ node.postorder) :
    (Node.expr expr).postorder <:+: node.postorder := by
  rw [postorder_eq] at h
  rcases List.mem_append.mp h with h | h
  · obtain ⟨child, hmem, hexpr⟩ := List.mem_flatMap.mp h
    have hchild : child.postorder <:+: node.children.flatMap postorder := by
      obtain ⟨before, behind, heq⟩ := List.append_of_mem hmem
      rw [heq]
      exact ⟨before.flatMap postorder, behind.flatMap postorder, by simp⟩
    have hinner := (postorder_infix_of_mem hexpr).trans hchild
    rw [node.postorder_eq]
    exact hinner.trans (List.infix_append' [] _ _)
  · cases node with
    | expr inner =>
        have heq : expr = inner := by simpa [expr?] using h
        subst heq
        exact List.infix_rfl
    | _ => simp [expr?] at h
termination_by sizeOf node
decreasing_by exact sizeOf_child_lt hmem

/-- In a walk over a node every child comes before its parent. -/
theorem child_mem_postorder {parent child : Expr}
    (h : Node.expr child ∈ (Node.expr parent).children) :
    child ∈ (Node.expr parent).children.flatMap postorder := by
  refine List.mem_flatMap.mpr ⟨_, h, ?_⟩
  rw [postorder_expr]
  exact List.mem_append_right _ (List.mem_singleton_self _)

end Node

namespace CompilationUnit

def postorder (unit : CompilationUnit) : List Expr :=
  unit.members.flatMap fun member => (Node.member member).postorder

theorem exprsOf_parts (unit : CompilationUnit) :
    Layout.exprsOf unit.parts = unit.postorder := by
  have hmembers : ∀ member ∈ unit.members,
      member.layout.exprs = (Node.member member).postorder :=
    fun member _ => (Node.member member).exprs_layout
  rw [parts, Layout.exprsOf_append, Layout.exprsOf_eq_flatMap, List.flatMap_map,
    List.flatMap_congr hmembers]
  exact List.append_nil _

theorem postorder_infix_of_mem {unit : CompilationUnit} {expr : Expr}
    (h : expr ∈ unit.postorder) : (Node.expr expr).postorder <:+: unit.postorder := by
  obtain ⟨member, hmem, hexpr⟩ := List.mem_flatMap.mp h
  refine (Node.postorder_infix_of_mem hexpr).trans ?_
  obtain ⟨before, behind, heq⟩ := List.append_of_mem hmem
  rw [postorder, heq]
  exact ⟨before.flatMap fun member => (Node.member member).postorder,
    behind.flatMap fun member => (Node.member member).postorder, by simp⟩

end CompilationUnit

namespace SyntaxTree

/-- Whatever the tokens are, the expressions of a tree in the order of a walk, each behind
its children, are its table, and have the numbers from 0 on. -/
theorem ofTokens_postorder (source : String) (tokens : TokenList) (lexical : List Diagnostic)
    (version : LanguageVersion) :
    (ofTokens source tokens lexical version).root.postorder =
        (ofTokens source tokens lexical version).exprs.toList ∧
      (ofTokens source tokens lexical version).root.postorder.map (·.id) =
        List.range (ofTokens source tokens lexical version).exprs.size ∧
      ∀ parent ∈ (ofTokens source tokens lexical version).root.postorder,
        (ofTokens source tokens lexical version).exprs.get? parent.id = some parent ∧
          ∀ child, Node.expr child ∈ (Node.expr parent).children → child.id < parent.id := by
  rw [ofTokens_root, ofTokens_exprs]
  generalize Sentence.ofTokens (closeTokens source tokens) = sentence
  have hexprs := ofSentence_exprs sentence
  rw [CompilationUnit.exprsOf_parts] at hexprs
  have hids := ofSentence_numbered sentence
  refine ⟨hexprs.symm, by rw [← hexprs, ← hids], fun parent hparent => ⟨?_, ?_⟩⟩
  · exact hids.get? (hexprs ▸ hparent)
  · -- The walk over the parent is a piece of the whole one, with the parent at its end.
    intro child hchild
    have hordered : ((ofSentence sentence).1.postorder.map (·.id)).Pairwise (· < ·) := by
      rw [← hexprs, hids]
      exact List.pairwise_lt_range
    have hinfix := (CompilationUnit.postorder_infix_of_mem hparent).sublist
    have hparents := (List.pairwise_map.mp hordered).sublist hinfix
    rw [Node.postorder_expr, List.pairwise_append] at hparents
    exact hparents.2.2 child (Node.child_mem_postorder hchild) parent (List.mem_singleton_self _)

end SyntaxTree
end TolerantSyntax
