import TolerantSyntax.Grammar.Type
import TolerantSyntax.Token.Set
import TolerantSyntax.Tree.Modifier

/-!
# Member heads

What stands in front of the type of a member: modifiers, then perhaps `ref` or
`readonly ref`. A `readonly` directly in front of `ref` belongs to the qualifier, and no
modifier follows one. `async` and `partial` are names unless what follows continues a head.
-/

namespace TolerantSyntax

namespace Sentence

def wordAt? (sentence : Sentence) (index : Nat) : Option Modifier :=
  match sentence.kindAt index, sentence.contextualAt index with
  | .identifier, .asyncWord => some .asyncKw
  | .identifier, .partialWord => some .partialKw
  | _, _ => none

/-- Whether the symbol at an index can follow a modifier, looking at `n` symbols at most. -/
def continuesHeadWithin (sentence : Sentence) : Nat → Nat → Bool
  | 0, _ => false
  | n + 1, index =>
      match sentence.kindAt index with
      | .identifier =>
          TokenSet.memberTypeFollow.contains (sentence.kindAt (index + 1))
            || ((sentence.wordAt? index).isSome && sentence.continuesHeadWithin n (index + 1))
      | kind => TokenSet.memberHeadFollow.contains kind

def continuesHead (sentence : Sentence) (index : Nat) : Bool :=
  sentence.continuesHeadWithin (sentence.left index) index

def modifierAt? (sentence : Sentence) (index : Nat) : Option Modifier :=
  if sentence.qualifierAt index then none
  else
    match Modifier.ofKeyword? (sentence.kindAt index) with
    | some modifier => some modifier
    | none => if sentence.continuesHead (index + 1) then sentence.wordAt? index else none

end Sentence

structure MemberHead where
  start : Nat
  modifiers : ModifierSet
  qualifier? : Option RefQualifier

namespace Parse

def modifierEntry? : Parse (Option ModifierEntry) := do
  match ← ask Sentence.modifierAt? with
  | none => return none
  | some modifier => return some ⟨modifier, ← advance⟩

def memberHead : Parse MemberHead := do
  let start ← position
  let entries ← many modifierEntry?
  let qualifier? ← refQualifier?
  return ⟨start, ⟨entries⟩, qualifier?⟩

end Parse
end TolerantSyntax
