import TolerantSyntax.Token.Kind

/-!
# Modifiers

The modifiers of a declaration in the order of the text. Duplicates and combinations
that exclude each other are kept as written.
-/

namespace TolerantSyntax

/-- `asyncKw` and `partialKw` come from identifiers, the others from keywords. -/
inductive Modifier where
  | publicKw | privateKw | protectedKw | internalKw | staticKw | virtualKw | overrideKw
  | abstractKw | sealedKw | readonlyKw | unsafeKw | externKw | newKw | constKw | volatileKw
  | asyncKw | partialKw
deriving DecidableEq, Repr, Inhabited

namespace Modifier

def all : List Modifier :=
  [.publicKw, .privateKw, .protectedKw, .internalKw, .staticKw, .virtualKw, .overrideKw,
   .abstractKw, .sealedKw, .readonlyKw, .unsafeKw, .externKw, .newKw, .constKw, .volatileKw,
   .asyncKw, .partialKw]

def text : Modifier → String
  | .publicKw => "public"
  | .privateKw => "private"
  | .protectedKw => "protected"
  | .internalKw => "internal"
  | .staticKw => "static"
  | .virtualKw => "virtual"
  | .overrideKw => "override"
  | .abstractKw => "abstract"
  | .sealedKw => "sealed"
  | .readonlyKw => "readonly"
  | .unsafeKw => "unsafe"
  | .externKw => "extern"
  | .newKw => "new"
  | .constKw => "const"
  | .volatileKw => "volatile"
  | .asyncKw => "async"
  | .partialKw => "partial"

def ofText? (text : String) : Option Modifier := all.find? (·.text == text)

def ofKeyword? : TokenKind → Option Modifier
  | .publicKw => some .publicKw
  | .privateKw => some .privateKw
  | .protectedKw => some .protectedKw
  | .internalKw => some .internalKw
  | .staticKw => some .staticKw
  | .virtualKw => some .virtualKw
  | .overrideKw => some .overrideKw
  | .abstractKw => some .abstractKw
  | .sealedKw => some .sealedKw
  | .readonlyKw => some .readonlyKw
  | .unsafeKw => some .unsafeKw
  | .externKw => some .externKw
  | .newKw => some .newKw
  | .constKw => some .constKw
  | .volatileKw => some .volatileKw
  | _ => none

end Modifier

structure ModifierEntry where
  modifier : Modifier
  token : Nat
deriving DecidableEq, Repr, Inhabited

structure ModifierSet where
  entries : List ModifierEntry
deriving DecidableEq, Repr, Inhabited

namespace ModifierSet

def empty : ModifierSet := ⟨[]⟩

def push (set : ModifierSet) (modifier : Modifier) (token : Nat) : ModifierSet :=
  ⟨set.entries ++ [⟨modifier, token⟩]⟩

def size (set : ModifierSet) : Nat := set.entries.length

def isEmpty (set : ModifierSet) : Bool := set.entries.isEmpty

def contains (set : ModifierSet) (modifier : Modifier) : Bool :=
  set.entries.any (·.modifier == modifier)

def modifiers (set : ModifierSet) : List Modifier := set.entries.map (·.modifier)

/-- The entries of a list whose modifier occurs before them, given those seen before. -/
def repeatedIn (seen : List Modifier) : List ModifierEntry → List ModifierEntry
  | [] => []
  | entry :: rest =>
      let repeats := repeatedIn (entry.modifier :: seen) rest
      if seen.contains entry.modifier then entry :: repeats else repeats

def duplicates (set : ModifierSet) : List ModifierEntry := repeatedIn [] set.entries

end ModifierSet
end TolerantSyntax
