import TolerantSyntax.Token.List

/-!
# Type trees

A node holds the range of the tokens that it covers and the indices of its own tokens.
A token that is required and absent is `none`. Types hold no expressions: only an
array creation has sizes between its brackets.
-/

namespace TolerantSyntax

inductive RefKind where
  | none
  | byRef
  | readonlyRef
deriving DecidableEq, Repr, Inhabited

structure RefQualifier where
  readonly? : Option Nat
  ref : Nat
deriving DecidableEq, Repr, Inhabited

namespace RefQualifier

def kind (qualifier : RefQualifier) : RefKind :=
  if qualifier.readonly?.isSome then .readonlyRef else .byRef

def firstToken (qualifier : RefQualifier) : Nat := qualifier.readonly?.getD qualifier.ref

end RefQualifier

/-- `[]` or `[,]`: one dimension more than commas. -/
structure ArrayRank where
  opening : Nat
  dimensions : Nat
  closing? : Option Nat
deriving DecidableEq, Repr, Inhabited

mutual

inductive TypeSyntax where
  | predefined (range : TokenRange) (keyword : Nat)
  | named (range : TokenRange) (name : Nat)
  | generic (range : TokenRange) (name lt : Nat) (args : List ElementType) (gt? : Option Nat)
  | qualified (range : TokenRange) (left : TypeSyntax) (dot : Nat) (right : TypeSyntax)
  | array (range : TokenRange) (element : TypeSyntax) (ranks : List ArrayRank)
  | pointer (range : TokenRange) (inner : TypeSyntax) (star : Nat)
  | nullable (range : TokenRange) (inner : TypeSyntax) (question : Nat)
  | tuple (range : TokenRange) (opening : Nat) (elements : List ElementType)
      (closing? : Option Nat)
  | byRef (range : TokenRange) (qualifier : RefQualifier) (inner : TypeSyntax)
  | missing (range : TokenRange)

/-- An element of a tuple type or a type argument. Neither may be `ref`: when the text
has one, it is kept here as skipped, with the `readonly` in front of it. -/
inductive ElementType where
  | mk (range : TokenRange) (readonly? skippedRef? : Option Nat) (type : TypeSyntax)
      (name? : Option Nat)

end

deriving instance Repr, BEq for TypeSyntax

instance : Inhabited TypeSyntax := ⟨.missing default⟩

structure TypeArguments where
  lt : Nat
  args : List ElementType
  gt? : Option Nat

namespace ElementType

def range : ElementType → TokenRange
  | mk range .. => range

def type : ElementType → TypeSyntax
  | mk _ _ _ type _ => type

end ElementType

namespace TypeSyntax

def range : TypeSyntax → TokenRange
  | predefined range _ | named range _ | generic range .. | qualified range .. | array range ..
  | pointer range .. | nullable range .. | tuple range .. | byRef range .. | missing range => range

def missingAt (index : Nat) : TypeSyntax := .missing (.emptyAt index)

def isMissing : TypeSyntax → Bool
  | missing _ => true
  | _ => false

def isNullable : TypeSyntax → Bool
  | nullable .. => true
  | _ => false

def isByRef : TypeSyntax → Bool
  | byRef .. => true
  | _ => false

def isPredefined : TypeSyntax → Bool
  | predefined .. => true
  | _ => false

def refKind : TypeSyntax → RefKind
  | byRef _ qualifier _ => qualifier.kind
  | _ => .none

def valueType : TypeSyntax → TypeSyntax
  | byRef _ _ inner => inner
  | type => type

/-- Puts a qualifier in front of a type; one that has a qualifier keeps its own. -/
def qualify (qualifier : RefQualifier) (type : TypeSyntax) (range : TokenRange) : TypeSyntax :=
  if type.isByRef then type else .byRef range qualifier type

def splitArray? : TypeSyntax → Option (TypeSyntax × List ArrayRank)
  | array _ element ranks => some (element, ranks)
  | _ => none

end TypeSyntax
end TolerantSyntax
