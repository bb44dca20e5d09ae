import TolerantSyntax.Grammar.Parse

/-!
# The grammar of types

A type is never by-reference by itself: `ref` is read only at the head of a declaration,
by whoever reads the head. In a tuple element or a type argument it is skipped.
-/

namespace TolerantSyntax.Parse

def refQualifier? : Parse (Option RefQualifier) := do
  if ← ask fun sentence index =>
      sentence.kindAt index == .readonlyKw && sentence.kindAt (index + 1) == .refKw then
    noteHere (.uses .readonlyReferences)
    let readonly ← advance
    let ref ← advance
    return some ⟨some readonly, ref⟩
  else if ← check .refKw then
    noteHere (.uses .refLocalsAndReturns)
    let ref ← advance
    return some ⟨none, ref⟩
  else return none

/-- A tuple element or, without a name, a type argument. -/
def elementType (nested : Parse TypeSyntax) (named : Bool) : Parse ElementType := do
  let start ← position
  let readonly? ← if ← ask Sentence.qualifierAt then eat .readonlyKw else pure none
  let here ← position
  let skippedRef? ← eat .refKw
  if skippedRef?.isSome then note (.skippedRef here)
  let type ← nested
  let name? ← if named then eat .identifier else pure none
  return .mk (← rangeFrom start) readonly? skippedRef? type name?

def typeArguments (nested : Parse TypeSyntax) : Parse TypeArguments := do
  let lt ← advance
  let args ← separated (elementType nested false)
  let gt? ← expect .gt
  return ⟨lt, args, gt?⟩

def tupleType (nested : Parse TypeSyntax) : Parse TypeSyntax := do
  let start ← position
  noteHere (.uses .tuples)
  let opening ← advance
  let elements ← separated (elementType nested true)
  let closing? ← expect .rParen
  if elements.length < 2 then note (.shortTuple opening)
  return .tuple (← rangeFrom start) opening elements closing?

def simpleName (nested : Parse TypeSyntax) : Parse TypeSyntax := do
  let start ← position
  let name ← advance
  if ← check .lt then
    let args ← typeArguments nested
    return .generic (← rangeFrom start) name args.lt args.args args.gt?
  else return .named (← rangeFrom start) name

def segment? (nested : Parse TypeSyntax) (start : Nat) (left : TypeSyntax) :
    Parse (Option TypeSyntax) := do
  if ← ask fun sentence index =>
      sentence.kindAt index == .dot && sentence.kindAt (index + 1) == .identifier then
    let dot ← advance
    let right ← simpleName nested
    return some (.qualified (← rangeFrom start) left dot right)
  else return none

def qualifiedName (nested : Parse TypeSyntax) : Parse TypeSyntax := do
  let start ← position
  grow (segment? nested start) (← simpleName nested)

def arrayRank : Parse ArrayRank := do
  let opening ← advance
  let commas ← many (eat .comma)
  let closing? ← expect .rBracket
  return ⟨opening, commas.length + 1, closing?⟩

def arrayRank? : Parse (Option ArrayRank) := whenever (ask Sentence.rankAt) arrayRank

def typeSuffix? (start : Nat) (type : TypeSyntax) : Parse (Option TypeSyntax) := do
  match ← kind with
  | .question =>
      if type.isNullable then return none
      else
        let question ← advance
        return some (.nullable (← rangeFrom start) type question)
  | .star =>
      let star ← advance
      return some (.pointer (← rangeFrom start) type star)
  | .lBracket =>
      match ← many arrayRank? with
      | [] => return none
      | ranks => return some (.array (← rangeFrom start) type ranks)
  | _ => return none

def missingType : Parse TypeSyntax := do
  noteHere .typeExpected
  return .missingAt (← position)

/-- A type, given how the types inside it are read. -/
def typeStep (nested : Parse TypeSyntax) : Parse TypeSyntax := do
  let start ← position
  match ← kind with
  | .identifier => grow (typeSuffix? start) (← qualifiedName nested)
  | .lParen => grow (typeSuffix? start) (← tupleType nested)
  | kind =>
      if kind.isPredefinedType then
        let keyword ← advance
        grow (typeSuffix? start) (.predefined (← rangeFrom start) keyword)
      else missingType

def typeWithin : Nat → Parse TypeSyntax
  | 0 => missingType
  | n + 1 => typeStep (typeWithin n)

/-- A type without a qualifier. Where none starts, nothing is taken. -/
def type : Parse TypeSyntax := do typeWithin (← left)

def qualifiedType (qualifier? : Option RefQualifier) : Parse TypeSyntax := do
  match qualifier? with
  | none => type
  | some qualifier => do
      let inner ← type
      return inner.qualify qualifier (← rangeFrom qualifier.firstToken)

end TolerantSyntax.Parse
