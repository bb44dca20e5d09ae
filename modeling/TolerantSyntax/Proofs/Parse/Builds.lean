import Mathlib.Data.Multiset.AddSub
import TolerantSyntax.Proofs.Layout.Tree
import TolerantSyntax.Proofs.Parse.Reads

/-!
# Building parts

From one state to a later one a parse builds parts when they fit between the two places,
when the expressions added to the table are those inside them, in their order, and when
the uses of features noted are theirs.  Nothing here depends on errors: what recovery
skips is no part, and what is only tried leaves nothing behind.
-/

namespace TolerantSyntax

def Finding.use? : Finding → Option FeatureUse
  | uses feature place => some ⟨feature, place⟩
  | _ => none

namespace ParseState

def uses (state : ParseState) : Multiset FeatureUse := ↑(state.findings.filterMap (·.use?))

/-- Every expression is at its number. -/
def Numbered (state : ParseState) : Prop :=
  state.exprs.toList.map (·.id) = List.range state.exprs.size

theorem uses_cons (position : Nat) (finding : Finding) (findings : List Finding)
    (exprs : ExprTable) :
    (mk position (finding :: findings) exprs).uses =
      (mk position findings exprs).uses + finding.use?.toList := by
  unfold uses
  cases huse : finding.use? with
  | none => simp [List.filterMap_cons_none huse]
  | some use =>
      rw [List.filterMap_cons_some huse, ← Multiset.cons_coe, ← Multiset.singleton_add,
        Multiset.add_comm]
      rfl

theorem Numbered.get? {state : ParseState} (h : state.Numbered) {expr : Expr}
    (hmem : expr ∈ state.exprs.toList) : state.exprs.get? expr.id = some expr := by
  obtain ⟨index, hindex⟩ := List.mem_iff_getElem?.mp hmem
  have hid : (state.exprs.toList.map (·.id))[index]? = some expr.id := by simp [hindex]
  rw [h] at hid
  obtain ⟨hlt, heq⟩ := List.getElem?_eq_some_iff.mp hid
  rw [List.getElem_range] at heq
  rw [← heq, ExprTable.get?, ← Array.getElem?_toList]
  exact hindex

theorem Numbered.push {state : ParseState} (h : state.Numbered) {expr : Expr}
    (hid : expr.id = state.exprs.size) :
    Numbered { state with exprs := ⟨state.exprs.exprs.push expr⟩ } := by
  have hids : state.exprs.exprs.toList.map (·.id) = List.range state.exprs.exprs.size := h
  simp [Numbered, ExprTable.toList, ExprTable.size, hids, hid, List.range_succ]

end ParseState

namespace Layout

structure Builds (parts : List Layout) (before after : ParseState) : Prop where
  fits : Fits parts before.position after.position
  exprs : after.exprs.toList = before.exprs.toList ++ exprsOf parts
  numbered : before.Numbered → after.Numbered
  uses : after.uses = before.uses + usesOf parts

namespace Builds

variable {parts other : List Layout} {before middle after : ParseState}

theorem forward (h : Builds parts before after) : before.position ≤ after.position := h.fits.le

theorem refl : Builds [] before before :=
  ⟨.nil (Nat.le_refl _), by simp, id, by simp⟩

theorem trans (hleft : Builds parts before middle) (hright : Builds other middle after) :
    Builds (parts ++ other) before after where
  fits := hleft.fits.append hright.fits
  exprs := by rw [hright.exprs, hleft.exprs, exprsOf_append, List.append_assoc]
  numbered := hright.numbered ∘ hleft.numbered
  uses := by
    rw [hright.uses, hleft.uses, usesOf_append, ← Multiset.coe_add, Multiset.add_assoc]

theorem node (h : Builds parts before after) :
    Builds [.node ⟨before.position, after.position⟩ parts] before after where
  fits := .branch (Nat.le_refl _) h.fits (.nil (Nat.le_refl _))
  exprs := by simpa [Layout.node] using h.exprs
  numbered := h.numbered
  uses := by rw [Layout.node, usesOf_branch, h.uses]

theorem drop (h : Builds parts before after) (hexprs : exprsOf parts = [])
    (huses : usesOf parts = []) : Builds [] before after where
  fits := .nil h.forward
  exprs := by rw [h.exprs, hexprs, exprsOf_nil]
  numbered := h.numbered
  uses := by rw [h.uses, huses, usesOf_nil]

theorem token :
    Builds [.token before.position] before { before with position := before.position + 1 } :=
  ⟨.leaf (Nat.le_refl _) (.nil (Nat.le_refl _)), by simp [Layout.token], id,
    (Multiset.add_zero _).symm⟩

theorem gate (feature : Feature) :
    Builds [.gate feature before.position] before
      { before with
        position := before.position + 1
        findings := .uses feature before.position :: before.findings } :=
  ⟨.leaf (Nat.le_refl _) (.nil (Nat.le_refl _)), by simp [Layout.gate], id,
    ParseState.uses_cons ..⟩

theorem opening :
    Builds [.implied none before.position] before
      { before with position := before.position + 1 } :=
  ⟨.leaf (Nat.le_refl _) (.nil (Nat.le_refl _)), by simp [implied], id,
    (Multiset.add_zero _).symm⟩

theorem opened {index : Nat} (feature : Feature)
    (h : Builds (.implied none index :: parts) before after) :
    Builds (.implied (some feature) index :: parts) before
      { after with findings := .uses feature index :: after.findings } where
  fits := by
    cases h.fits with
    | leaf hstart hrest => exact .leaf hstart hrest
  exprs := h.exprs
  numbered := h.numbered
  uses := by
    have huses : after.uses = before.uses + usesOf parts := h.uses
    have hparts : usesOf (.implied (some feature) index :: parts) =
        ⟨feature, index⟩ :: usesOf parts := rfl
    rw [ParseState.uses_cons, hparts, ← Multiset.cons_coe, Multiset.add_cons, ← huses,
      Multiset.add_comm]
    exact Multiset.singleton_add _ _

theorem noted {finding : Finding} (h : Builds parts before after)
    (hfinding : finding.use? = none) :
    Builds parts before { after with findings := finding :: after.findings } := by
  refine ⟨h.fits, h.exprs, h.numbered, ?_⟩
  rw [ParseState.uses_cons, hfinding, ← h.uses]
  exact Multiset.add_zero _

theorem skip (h : Builds parts before after) {stop : Nat} (hforward : after.position ≤ stop) :
    Builds parts before { after with position := stop } :=
  ⟨h.fits.to_le hforward, h.exprs, h.numbered, h.uses⟩

theorem complete {expr : Expr} (h : Builds expr.parts before after)
    (hrange : expr.range = ⟨before.position, after.position⟩)
    (hid : expr.id = after.exprs.size) :
    Builds [expr.layout] before
      { after with exprs := ⟨after.exprs.exprs.push expr⟩ } where
  fits := by
    refine .branch (Nat.le_of_eq (by rw [hrange])) ?_ (.nil (Nat.le_of_eq (by rw [hrange])))
    rw [hrange]
    exact h.fits
  exprs := by
    have hexprs : after.exprs.exprs.toList = before.exprs.exprs.toList ++ exprsOf expr.parts :=
      h.exprs
    simp [ExprTable.toList, Expr.layout, ofExpr, hexprs]
  numbered := fun hbefore => (h.numbered hbefore).push hid
  uses := by
    rw [Expr.layout, ofExpr, usesOf_branch]
    exact h.uses

end Builds
end Layout
end TolerantSyntax
