import TolerantSyntax.Token.Set

/-!
# Where members are read

The body around a member list decides which symbols start a member, how a symbol that
starts none is reported, and whether a `}` ends the list.
-/

namespace TolerantSyntax

/-- The bodies around the current place, and whether it is only tried. -/
structure ParseContext where
  inTypeBody : Bool
  inNamespace : Bool
  speculative : Bool
deriving DecidableEq, Repr, Inhabited

namespace ParseContext

def none : ParseContext := ⟨false, false, false⟩

def typeBody : ParseContext := ⟨true, false, false⟩

def namespaceBody : ParseContext := ⟨false, true, false⟩

def attempt : ParseContext := ⟨false, false, true⟩

def union (left right : ParseContext) : ParseContext :=
  ⟨left.inTypeBody || right.inTypeBody, left.inNamespace || right.inNamespace,
    left.speculative || right.speculative⟩

def difference (left right : ParseContext) : ParseContext :=
  ⟨left.inTypeBody && !right.inTypeBody, left.inNamespace && !right.inNamespace,
    left.speculative && !right.speculative⟩

def replace (context leave enter : ParseContext) : ParseContext :=
  (context.difference leave).union enter

def toBits (context : ParseContext) : Nat :=
  context.inTypeBody.toNat + 2 * context.inNamespace.toNat + 4 * context.speculative.toNat

def enterType (context : ParseContext) : ParseContext := context.replace namespaceBody typeBody

def enterNamespace (context : ParseContext) : ParseContext :=
  context.replace typeBody namespaceBody

def memberStart (context : ParseContext) : TokenSet :=
  if context.inTypeBody then .memberStart else .namespaceMemberStart

def isBraced (context : ParseContext) : Bool := context.inTypeBody || context.inNamespace

end ParseContext
end TolerantSyntax
