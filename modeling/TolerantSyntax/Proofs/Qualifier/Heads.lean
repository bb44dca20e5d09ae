import TolerantSyntax.Proofs.Visits

/-!
# Where types are by reference

A declaration has one type that may be by reference, and its qualifier stands in front of
it.  All else that a node holds is plain, and so is all that stands inside a type.
-/

namespace TolerantSyntax

/-- The qualifier stands where its type and the modifiers of the declaration say, given which
symbol has which kind. -/
structure RefQualifier.StandsAt (hasKind : Nat → TokenKind → Prop) (range : TokenRange)
    (modifiers : ModifierSet) (qualifier : RefQualifier) : Prop where
  isRef : hasKind qualifier.ref .refKw
  starts : qualifier.ref = range.start ∨
    qualifier.ref = range.start + 1 ∧ hasKind range.start .readonlyKw
  kind : qualifier.kind = .readonlyRef ↔
    ∃ front, qualifier.ref = front + 1 ∧ hasKind front .readonlyKw
  apart : ∀ front, qualifier.ref = front + 1 → hasKind front .readonlyKw →
    ∀ entry ∈ modifiers.entries, entry.token ≠ front

theorem RefQualifier.StandsAt.imp {hasKind hasKind' : Nat → TokenKind → Prop}
    {range : TokenRange} {modifiers : ModifierSet} {qualifier : RefQualifier}
    (h : qualifier.StandsAt hasKind range modifiers)
    (hto : ∀ index kind, kind ≠ .eof → hasKind index kind → hasKind' index kind)
    (hback : ∀ index, index < qualifier.ref → hasKind' index .readonlyKw →
      hasKind index .readonlyKw) :
    qualifier.StandsAt hasKind' range modifiers where
  isRef := hto _ _ nofun h.isRef
  starts := h.starts.imp_right fun ⟨hat, hreadonly⟩ => ⟨hat, hto _ _ nofun hreadonly⟩
  kind := by
    rw [h.kind]
    constructor
    · rintro ⟨front, hat, hreadonly⟩
      exact ⟨front, hat, hto _ _ nofun hreadonly⟩
    · rintro ⟨front, hat, hreadonly⟩
      exact ⟨front, hat, hback _ (by omega) hreadonly⟩
  apart := fun front hat hreadonly =>
    h.apart front hat (hback _ (by omega) hreadonly)

namespace Node

def isByRef : Node → Bool
  | type inner => inner.isByRef
  | _ => false

/-- The modifiers of a declaration and the type that may be by reference in it: what a
method, a property, an indexer or a delegate returns, or the type of a local declaration or
of a member that was given up. -/
def declared? : Node → Option (ModifierSet × TypeSyntax)
  | member (.method info own ..) | member (.property info own ..)
  | member (.indexer info own ..) | member (.delegate info _ own ..)
  | member (.incomplete info (some own)) => some (info.modifiers, own)
  | stmt (.declaration _ decl) => some (decl.modifiers, decl.type)
  | _ => none

/-- What a node holds besides the type that it declares. -/
def others (node : Node) : List Node :=
  if node.declared?.isSome then (node.held true).tail else node.held true

theorem held_of_declared {node : Node} {modifiers : ModifierSet} {type : TypeSyntax}
    (h : node.declared? = some (modifiers, type)) :
    node.held true = .type type :: node.others := by
  unfold others
  rw [h, Option.isSome_some, if_pos rfl]
  unfold declared? at h
  split at h <;> cases h <;> rfl

theorem held_of_undeclared {node : Node} (h : node.declared? = none) :
    node.held true = node.others := by
  unfold others
  rw [h]
  rfl

/-- Of what the node holds only the type that it declares is by reference, and then it has a
qualifier. -/
structure HeadsOnly (hasKind : Nat → TokenKind → Prop) (node : Node) : Prop where
  others : ∀ inner ∈ node.others, inner.isByRef = false
  declared : ∀ modifiers range qualifier inner,
    node.declared? = some (modifiers, .byRef range qualifier inner) →
      qualifier.StandsAt hasKind range modifiers

end Node

namespace Node.Throughout

variable {P : Node → Prop} {node : Node}

theorem of_held (hhere : P node) (h : ∀ inner ∈ node.held true, inner.Throughout P) :
    node.Throughout P := by
  refine .intro hhere fun inner hinner => h inner (List.mem_append.mpr ?_)
  rcases mem_entries_iff.mp hinner with ⟨name, hname, rfl⟩ | hchild
  · exact .inl (by simp [hname])
  · exact .inr hchild

/-- What holds throughout a node holds of its whole subtree. -/
theorem subtree (h : node.Throughout P) : ∀ inner ∈ node.subtree true, P inner := by
  induction h with
  | @intro node hhere hbelow ih =>
      rw [Node.subtree_eq]
      refine List.forall_mem_cons.mpr ⟨hhere, fun inner hinner => ?_⟩
      obtain ⟨child, hchild, hmem⟩ := List.mem_flatMap.mp hinner
      refine ih child (mem_entries_iff.mpr ?_) inner hmem
      rcases List.mem_append.mp hchild with hname | hchild
      · rw [if_pos rfl] at hname
        obtain ⟨name, hmem', rfl⟩ := List.mem_map.mp hname
        exact .inl ⟨name, Option.mem_toList.mp hmem', rfl⟩
      · exact .inr hchild

end Node.Throughout

namespace Sentence

variable {sentence : Sentence} {node : Node} {nodes others : List Node}

/-- All in the node is in its place. -/
def Placed (sentence : Sentence) (node : Node) : Prop :=
  node.Throughout (·.HeadsOnly fun index kind => sentence.kindAt index = kind)

/-- The nodes are no types by reference, and all in them is in its place. -/
def Plain (sentence : Sentence) (nodes : List Node) : Prop :=
  ∀ node ∈ nodes, node.isByRef = false ∧ sentence.Placed node

namespace Plain

theorem nil : sentence.Plain [] := nofun

theorem single (hbyRef : node.isByRef = false) (h : sentence.Placed node) :
    sentence.Plain [node] := List.forall_mem_singleton.mpr ⟨hbyRef, h⟩

theorem append (hnodes : sentence.Plain nodes) (hothers : sentence.Plain others) :
    sentence.Plain (nodes ++ others) := List.forall_mem_append.mpr ⟨hnodes, hothers⟩

theorem flatMap {α : Type} {values : List α} {make : α → List Node}
    (h : ∀ value ∈ values, sentence.Plain (make value)) :
    sentence.Plain (values.flatMap make) := by
  intro node hmem
  obtain ⟨value, hvalue, hnode⟩ := List.mem_flatMap.mp hmem
  exact h value hvalue node hnode

theorem map {α : Type} {values : List α} {make : α → Node}
    (h : ∀ value ∈ values, sentence.Plain [make value]) : sentence.Plain (values.map make) :=
  List.forall_mem_map.mpr fun value hvalue => h value hvalue _ (List.mem_singleton_self _)

theorem placed (h : sentence.Plain [node]) : sentence.Placed node :=
  (h node (List.mem_singleton_self _)).2

end Plain

theorem Placed.of_plain (hnone : node.declared? = none) (h : sentence.Plain (node.held true)) :
    sentence.Placed node := by
  refine .of_held ⟨?_, ?_⟩ fun inner hinner => (h inner hinner).2
  · rw [← Node.held_of_undeclared hnone]
    exact fun inner hinner => (h inner hinner).1
  · intro modifiers range qualifier inner hsome
    rw [hnone] at hsome
    cases hsome

structure Declares (sentence : Sentence) (modifiers : ModifierSet) (type : TypeSyntax) :
    Prop where
  placed : sentence.Placed (.type type)
  headed : ∀ range qualifier inner, type = .byRef range qualifier inner →
    qualifier.StandsAt (fun index kind => sentence.kindAt index = kind) range modifiers

theorem Declares.plain {modifiers : ModifierSet} {type : TypeSyntax}
    (h : sentence.Declares modifiers type) (hbyRef : type.isByRef = false) :
    sentence.Plain [.type type] := .single hbyRef h.placed

theorem Placed.of_declared {modifiers : ModifierSet} {type : TypeSyntax}
    (h : sentence.Declares modifiers type) (hsome : node.declared? = some (modifiers, type))
    (hothers : sentence.Plain node.others) : sentence.Placed node := by
  refine .of_held ⟨fun inner hinner => (hothers inner hinner).1, ?_⟩ ?_
  · intro modifiers' range qualifier inner hbyRef
    rw [hsome] at hbyRef
    cases hbyRef
    exact h.headed range qualifier inner rfl
  · rw [Node.held_of_declared hsome]
    exact List.forall_mem_cons.mpr ⟨h.placed, fun inner hinner => (hothers inner hinner).2⟩

end Sentence
end TolerantSyntax
