import TolerantSyntax.Tree.Expr
import TolerantSyntax.Version

/-!
# Layouts

A layout is what a tree says about the token list: which tokens stand in it, which ranges
its parts have and how they lie in one another, in the order of the text.  Parts fit
between two places when each starts behind the one before, and the parts inside a range
fit into it.  So from left to right no token comes twice.
-/

namespace TolerantSyntax

namespace TokenRange

def Within (inner outer : TokenRange) : Prop :=
  outer.start ≤ inner.start ∧ inner.stop ≤ outer.stop

theorem Within.from_le {inner : TokenRange} {start before stop : Nat}
    (h : inner.Within ⟨start, stop⟩) (hle : before ≤ start) : inner.Within ⟨before, stop⟩ :=
  ⟨Nat.le_trans hle h.1, h.2⟩

def Precedes (left right : TokenRange) : Prop := left.stop ≤ right.start

end TokenRange

/-- A use of a feature, at the token that begins it. -/
structure FeatureUse where
  feature : Feature
  token : Nat
deriving DecidableEq, Repr

structure Leaf where
  index : Nat
  stored : Bool
  feature? : Option Feature
deriving DecidableEq, Repr

def Leaf.use? (leaf : Leaf) : Option FeatureUse := leaf.feature?.map (⟨·, leaf.index⟩)

/-- A branch is a part with a range of its own; the expressions among them are named. -/
inductive Layout where
  | leaf (leaf : Leaf)
  | branch (range : TokenRange) (expr? : Option Expr) (parts : List Layout)

namespace Layout

def token (index : Nat) : Layout := leaf ⟨index, true, none⟩

/-- A token that begins a construct that only some versions have. -/
def gate (feature : Feature) (index : Nat) : Layout := leaf ⟨index, true, some feature⟩

def implied (feature? : Option Feature) (index : Nat) : Layout := leaf ⟨index, false, feature?⟩

def tokens? (token? : Option Nat) : List Layout := token?.toList.map token

def node (range : TokenRange) (parts : List Layout) : Layout := branch range none parts

def ofExpr (expr : Expr) (parts : List Layout) : Layout := branch expr.range (some expr) parts

def range : Layout → TokenRange
  | leaf entry => .single entry.index
  | branch range _ _ => range

@[simp] theorem range_branch (range : TokenRange) (expr? : Option Expr)
    (parts : List Layout) : (branch range expr? parts).range = range := rfl

mutual

def leaves : Layout → List Leaf
  | .leaf entry => [entry]
  | .branch _ _ parts => leavesOf parts

def leavesOf : List Layout → List Leaf
  | [] => []
  | part :: rest => part.leaves ++ leavesOf rest

end

mutual

/-- The expressions, each behind those inside it. -/
def exprs : Layout → List Expr
  | .leaf _ => []
  | .branch _ expr? parts => exprsOf parts ++ expr?.toList

def exprsOf : List Layout → List Expr
  | [] => []
  | part :: rest => part.exprs ++ exprsOf rest

end

def usesOf (parts : List Layout) : List FeatureUse := (leavesOf parts).filterMap (·.use?)

def storedOf (parts : List Layout) : List Nat := ((leavesOf parts).filter (·.stored)).map (·.index)

@[simp] theorem leavesOf_nil : leavesOf [] = [] := rfl

@[simp] theorem leavesOf_cons (part : Layout) (rest : List Layout) :
    leavesOf (part :: rest) = part.leaves ++ leavesOf rest := rfl

@[simp] theorem leavesOf_append (left right : List Layout) :
    leavesOf (left ++ right) = leavesOf left ++ leavesOf right := by
  induction left with
  | nil => rfl
  | cons part rest ih => simp [ih]

@[simp] theorem leaves_leaf (entry : Leaf) : (leaf entry).leaves = [entry] := rfl

@[simp] theorem leaves_branch (range : TokenRange) (expr? : Option Expr)
    (parts : List Layout) : (branch range expr? parts).leaves = leavesOf parts := rfl

@[simp] theorem exprsOf_nil : exprsOf [] = [] := rfl

@[simp] theorem exprsOf_cons (part : Layout) (rest : List Layout) :
    exprsOf (part :: rest) = part.exprs ++ exprsOf rest := rfl

theorem exprsOf_eq_flatMap (parts : List Layout) : exprsOf parts = parts.flatMap exprs := by
  induction parts with
  | nil => rfl
  | cons part rest ih => rw [exprsOf_cons, ih, List.flatMap_cons]

@[simp] theorem exprsOf_append (left right : List Layout) :
    exprsOf (left ++ right) = exprsOf left ++ exprsOf right := by
  induction left with
  | nil => rfl
  | cons part rest ih => simp [ih]

@[simp] theorem exprs_leaf (entry : Leaf) : (leaf entry).exprs = [] := rfl

@[simp] theorem exprs_branch (range : TokenRange) (expr? : Option Expr)
    (parts : List Layout) : (branch range expr? parts).exprs = exprsOf parts ++ expr?.toList := rfl

@[simp] theorem usesOf_nil : usesOf [] = [] := rfl

@[simp] theorem usesOf_append (left right : List Layout) :
    usesOf (left ++ right) = usesOf left ++ usesOf right := by
  simp [usesOf]

@[simp] theorem usesOf_branch (range : TokenRange) (expr? : Option Expr)
    (parts : List Layout) : usesOf [branch range expr? parts] = usesOf parts := by
  simp [usesOf]

/-- The parts lie between two places, from left to right. -/
inductive Fits : List Layout → Nat → Nat → Prop where
  | nil {start stop : Nat} (h : start ≤ stop) : Fits [] start stop
  | leaf {entry : Leaf} {rest : List Layout} {start stop : Nat} (hstart : start ≤ entry.index)
      (hrest : Fits rest (entry.index + 1) stop) : Fits (.leaf entry :: rest) start stop
  | branch {range : TokenRange} {expr? : Option Expr} {parts rest : List Layout}
      {start stop : Nat} (hstart : start ≤ range.start)
      (hparts : Fits parts range.start range.stop) (hrest : Fits rest range.stop stop) :
      Fits (.branch range expr? parts :: rest) start stop

namespace Fits

variable {parts left right : List Layout} {start middle stop : Nat}

theorem le (h : Fits parts start stop) : start ≤ stop := by
  induction h with
  | nil h => exact h
  | leaf hstart hrest ih => omega
  | branch hstart hparts hrest ihparts ihrest => omega

theorem from_le (h : Fits parts start stop) {before : Nat} (hle : before ≤ start) :
    Fits parts before stop := by
  cases h with
  | nil h => exact .nil (Nat.le_trans hle h)
  | leaf hstart hrest => exact .leaf (Nat.le_trans hle hstart) hrest
  | branch hstart hparts hrest => exact .branch (Nat.le_trans hle hstart) hparts hrest

theorem append (hleft : Fits left start middle) (hright : Fits right middle stop) :
    Fits (left ++ right) start stop := by
  induction hleft with
  | nil h => exact hright.from_le h
  | leaf hstart hrest ih => exact .leaf hstart (ih hright)
  | branch hstart hparts hrest ihparts ihrest => exact .branch hstart hparts (ihrest hright)

theorem to_le (h : Fits parts start stop) {behind : Nat} (hle : stop ≤ behind) :
    Fits parts start behind := by
  simpa using h.append (.nil hle)

theorem inner {range : TokenRange} {expr? : Option Expr} {inner : List Layout}
    (h : Fits parts start stop) (hmem : Layout.branch range expr? inner ∈ parts) :
    Fits inner range.start range.stop := by
  induction h with
  | nil h => simp at hmem
  | leaf hstart hrest ih => exact ih (by simpa using hmem)
  | branch hstart hparts hrest ihparts ihrest =>
      rcases List.mem_cons.mp hmem with heq | hmem
      · cases heq
        exact hparts
      · exact ihrest hmem

theorem leaves_bounds (h : Fits parts start stop) :
    ∀ entry ∈ leavesOf parts, start ≤ entry.index ∧ entry.index < stop := by
  induction h with
  | nil h => simp
  | leaf hstart hrest ih =>
      have hle := hrest.le
      simp only [leavesOf_cons, leaves_leaf, List.cons_append, List.nil_append,
        List.forall_mem_cons]
      refine ⟨by omega, fun entry hmem => ?_⟩
      have := ih entry hmem
      omega
  | branch hstart hparts hrest ihparts ihrest =>
      have hle := hparts.le
      have hle' := hrest.le
      simp only [leavesOf_cons, leaves_branch, List.mem_append]
      rintro entry (hmem | hmem)
      · have := ihparts entry hmem
        omega
      · have := ihrest entry hmem
        omega

theorem usesOf_eq_nil (h : Fits parts start stop) (hstop : stop ≤ start) : usesOf parts = [] := by
  have hleaves : leavesOf parts = [] := by
    refine List.eq_nil_iff_forall_not_mem.mpr fun entry hmem => ?_
    have := h.leaves_bounds entry hmem
    omega
  rw [usesOf, hleaves, List.filterMap_nil]

theorem leaves_ordered (h : Fits parts start stop) :
    (leavesOf parts).Pairwise (·.index < ·.index) := by
  induction h with
  | nil h => simp
  | leaf hstart hrest ih =>
      simp only [leavesOf_cons, leaves_leaf, List.cons_append, List.nil_append,
        List.pairwise_cons]
      exact ⟨fun entry hmem => (hrest.leaves_bounds entry hmem).1, ih⟩
  | branch hstart hparts hrest ihparts ihrest =>
      simp only [leavesOf_cons, leaves_branch, List.pairwise_append]
      refine ⟨ihparts, ihrest, fun left hleft right hright => ?_⟩
      have := hparts.leaves_bounds left hleft
      have := hrest.leaves_bounds right hright
      omega

theorem leaves_nodup (h : Fits parts start stop) : ((leavesOf parts).map (·.index)).Nodup := by
  rw [List.nodup_iff_pairwise_ne, List.pairwise_map]
  exact h.leaves_ordered.imp Nat.ne_of_lt

theorem uses_ordered (h : Fits parts start stop) :
    (usesOf parts).Pairwise (·.token < ·.token) := by
  refine h.leaves_ordered.filterMap _ fun left right hlt use huse use' huse' => ?_
  obtain ⟨feature, -, rfl⟩ := Option.map_eq_some_iff.mp huse
  obtain ⟨feature', -, rfl⟩ := Option.map_eq_some_iff.mp huse'
  exact hlt

theorem ranges_within (h : Fits parts start stop) :
    ∀ part ∈ parts, part.range.Within ⟨start, stop⟩ := by
  induction h with
  | nil h => simp
  | leaf hstart hrest ih =>
      have hle := hrest.le
      exact List.forall_mem_cons.mpr
        ⟨⟨hstart, hle⟩, fun part hmem => (ih part hmem).from_le (by omega)⟩
  | branch hstart hparts hrest ihparts ihrest =>
      have hle := hparts.le
      have hle' := hrest.le
      exact List.forall_mem_cons.mpr
        ⟨⟨hstart, hle'⟩, fun part hmem => (ihrest part hmem).from_le (by omega)⟩

theorem ranges_ordered (h : Fits parts start stop) :
    parts.Pairwise fun left right => left.range.Precedes right.range := by
  induction h with
  | nil h => simp
  | leaf hstart hrest ih => exact .cons (fun part hmem => (hrest.ranges_within part hmem).1) ih
  | branch hstart hparts hrest ihparts ihrest =>
      exact .cons (fun part hmem => (hrest.ranges_within part hmem).1) ihrest

end Fits

/-- The range of every branch holds the ranges of its parts, from left to right and without
overlap. -/
inductive Nested : Layout → Prop where
  | leaf (entry : Leaf) : Nested (.leaf entry)
  | branch {range : TokenRange} {expr? : Option Expr} {parts : List Layout}
      (hrange : range.start ≤ range.stop)
      (hwithin : ∀ part ∈ parts, part.range.Within range)
      (hordered : parts.Pairwise fun left right => left.range.Precedes right.range)
      (hparts : ∀ part ∈ parts, Nested part) : Nested (.branch range expr? parts)

theorem Fits.nested {parts : List Layout} {start stop : Nat} (h : Fits parts start stop) :
    ∀ part ∈ parts, Nested part := by
  induction h with
  | nil h => simp
  | leaf hstart hrest ih => exact List.forall_mem_cons.mpr ⟨.leaf _, ih⟩
  | branch hstart hparts hrest ihparts ihrest =>
      refine List.forall_mem_cons.mpr ⟨?_, ihrest⟩
      exact .branch hparts.le hparts.ranges_within hparts.ranges_ordered ihparts

end Layout
end TolerantSyntax
