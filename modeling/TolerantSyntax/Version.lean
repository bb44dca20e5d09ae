import TolerantSyntax.Diagnostic.Basic

/-!
# Language versions and features

The grammar is the same for every version. A construct that is newer than the chosen
version is parsed all the same and reported where it begins.
-/

namespace TolerantSyntax

/-- The characters with the property White_Space. -/
def isBlank (c : Char) : Bool :=
  let n := c.toNat
  (0x09 ≤ n && n ≤ 0x0D) || n == 0x20 || n == 0x85 || n == 0xA0 || n == 0x1680
    || (0x2000 ≤ n && n ≤ 0x200A) || n == 0x2028 || n == 0x2029 || n == 0x202F || n == 0x205F
    || n == 0x3000

def trimBlanks (text : String) : String :=
  let front := text.toList.dropWhile isBlank
  String.ofList (front.reverse.dropWhile isBlank).reverse

inductive LanguageVersion where
  | v1 | v2 | v3 | v4 | v5 | v6 | v7 | v7_1
deriving DecidableEq, Repr

namespace LanguageVersion

def all : List LanguageVersion := [.v1, .v2, .v3, .v4, .v5, .v6, .v7, .v7_1]

def latest : LanguageVersion := .v7_1

instance : Inhabited LanguageVersion := ⟨latest⟩

def rank (version : LanguageVersion) : Nat := version.ctorIdx

instance : LE LanguageVersion := ⟨fun older newer => older.rank ≤ newer.rank⟩

instance (older newer : LanguageVersion) : Decidable (older ≤ newer) :=
  inferInstanceAs (Decidable (older.rank ≤ newer.rank))

def name : LanguageVersion → String
  | .v1 => "1"
  | .v2 => "2"
  | .v3 => "3"
  | .v4 => "4"
  | .v5 => "5"
  | .v6 => "6"
  | .v7 => "7.0"
  | .v7_1 => "7.1"

/-- The version that a text names, blanks around it and the case of ASCII letters
aside. -/
def ofText? (text : String) : Option LanguageVersion :=
  match (trimBlanks text).toLower with
  | "1" => some .v1
  | "2" => some .v2
  | "3" => some .v3
  | "4" => some .v4
  | "5" => some .v5
  | "6" => some .v6
  | "7" | "7.0" => some .v7
  | "7.1" | "latest" | "default" => some .v7_1
  | _ => none

def unknownMessage (text : String) : String :=
  s!"invalid language version '{text}' (expected 1-6, 7, 7.0, 7.1, latest or default)"

end LanguageVersion

inductive Feature where
  | expressionBodiedMembers
  | tuples
  | refLocalsAndReturns
  | throwExpressions
  | readonlyReferences
deriving DecidableEq, Repr

namespace Feature

def all : List Feature :=
  [.expressionBodiedMembers, .tuples, .refLocalsAndReturns, .throwExpressions, .readonlyReferences]

def displayName : Feature → String
  | .expressionBodiedMembers => "expression-bodied members"
  | .tuples => "tuples"
  | .refLocalsAndReturns => "byref locals and returns"
  | .throwExpressions => "throw expression"
  | .readonlyReferences => "readonly references"

def required : Feature → LanguageVersion
  | .expressionBodiedMembers => .v6
  | .tuples | .refLocalsAndReturns | .throwExpressions => .v7
  | .readonlyReferences => .v7_1

def isAvailable (feature : Feature) (version : LanguageVersion) : Bool :=
  feature.required ≤ version

/-- The diagnostic for a use of the feature at a span; none when the version has it. -/
def check? (feature : Feature) (version : LanguageVersion) (span : Span) : Option Diagnostic :=
  if feature.isAvailable version then none
  else some (.featureNotAvailable span feature.displayName feature.required.name)

end Feature
end TolerantSyntax
