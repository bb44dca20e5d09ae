import TolerantSyntax.Grammar.Context
import TolerantSyntax.Grammar.Head
import TolerantSyntax.Grammar.Stmt
import TolerantSyntax.Tree.Member

/-!
# The grammar of declarations

Behind its head a member is told by a keyword, or by what follows its type:

| behind the type       | member                                 |
|-----------------------|----------------------------------------|
| `this`                | indexer                                |
| `operator`            | operator; given up if by reference     |
| name and `(` or `<`   | method                                 |
| name and `{` or `=>`  | property                               |
| name and all else     | field; method if by reference          |

Members cover every symbol of their body: what starts none is skipped as a member of its
own.
-/

namespace TolerantSyntax.Parse

def memberInfo (head : MemberHead) : Parse MemberInfo := do
  return ⟨head.modifiers, ← rangeFrom head.start⟩

def typeParameters? : Parse (Option TypeParameterList) := do
  match ← eat .lt with
  | none => return none
  | some lt => do
      let params ← separated (expect .identifier)
      let gt? ← expect .gt
      return some ⟨lt, params.reduceOption, gt?⟩

def parameter : Parse Parameter := do
  let modifier? ← whenever (checkAny .parameterModifiers) advance
  let type ← type
  let name? ← expect .identifier
  if name?.isNone then synchronize .parameterRecovery
  match ← eat .eq with
  | none => return ⟨modifier?, type, name?, none⟩
  | some _ => return ⟨modifier?, type, name?, some (← expr)⟩

def parametersWithin : Nat → Parse (List Parameter)
  | 0 => return []
  | n + 1 => do
      let first ← parameter
      match ← eat .comma with
      | none => return [first]
      | some _ =>
          if ← checkAny .parameterStart then return first :: (← parametersWithin n)
          else
            noteHere .typeExpected
            return [first]

/-- Parameters between two symbols; a comma needs one behind it. -/
def parameterList (opening closing : TokenKind) : Parse ParameterList := do
  let opening? ← expect opening
  let params ← if ← checkAny .parameterStart then parametersWithin (← left) else pure []
  let closing? ← expect closing
  return ⟨opening?, params, closing?⟩

def roundParameters : Parse ParameterList := parameterList .lParen .rParen

def arrowBody : Parse ArrowBody := do
  noteHere (.uses .expressionBodiedMembers)
  let arrow ← advance
  let expr ← expr
  let semicolon? ← expect .semicolon
  return ⟨arrow, expr, semicolon?⟩

def memberBody : Parse MemberBody := do
  match ← kind with
  | .lBrace => .block <$> block
  | .arrow => .arrow <$> arrowBody
  | _ => .semicolon <$> expect .semicolon

def keywordModifier? : Parse (Option ModifierEntry) := do
  match Modifier.ofKeyword? (← kind) with
  | none => return none
  | some modifier => return some ⟨modifier, ← advance⟩

def accessor? : Parse (Option Accessor) := do
  let entries ← many keywordModifier?
  if ← ask Sentence.accessorKeywordAt then
    let keyword ← advance
    let body ← memberBody
    return some ⟨⟨entries⟩, keyword, body⟩
  else
    noteHere .accessorExpected
    moveTo Sentence.accessorBoundary
    return none

def propertyBody : Parse PropertyBody := do
  if ← check .arrow then return .arrow (← arrowBody)
  else
    let (opening?, accessors, closing?) ← braced (many (unlessClosed accessor?))
    return .accessors opening? accessors.reduceOption closing?

/-! ## Members behind a type -/

def fieldDecl (head : MemberHead) (type : TypeSyntax) : Parse Member := do
  let declarators ← declarators
  let semicolon? ← expect .semicolon
  return .field (← memberInfo head) type declarators semicolon?

def methodDecl (head : MemberHead) (type : TypeSyntax) : Parse Member := do
  let name ← advance
  let typeParams? ← typeParameters?
  let params ← roundParameters
  let body ← memberBody
  return .method (← memberInfo head) type name typeParams? params body

def propertyDecl (head : MemberHead) (type : TypeSyntax) : Parse Member := do
  let name ← advance
  let body ← propertyBody
  return .property (← memberInfo head) type name body

def indexerDecl (head : MemberHead) (type : TypeSyntax) : Parse Member := do
  let this ← advance
  let params ← parameterList .lBracket .rBracket
  let body ← propertyBody
  return .indexer (← memberInfo head) type this params body

def declaredOperator? : Parse (Option TokenRange) := do
  let start ← position
  if ← ask Sentence.shiftAt then
    moveTo fun _ index => index + 2
    return some (← rangeFrom start)
  else if ← checkAny .overloadableOperators then return some (.single (← advance))
  else
    noteHere .operatorExpected
    return none

def operatorDecl (head : MemberHead) (type : TypeSyntax) : Parse Member := do
  let keyword ← advance
  let op? ← declaredOperator?
  let params ← roundParameters
  let body ← memberBody
  return .operator (← memberInfo head) type keyword op? params body

/-- A declaration that is given up behind its type. -/
def abandoned (head : MemberHead) (type : TypeSyntax) : Parse Member := do
  noteHere .strayInType
  return .incomplete (← memberInfo head) (some type)

/-- The member that a type starts; a type that is by reference starts no field and no
operator. -/
def typedMember (head : MemberHead) : Parse Member := do
  let type ← qualifiedType head.qualifier?
  if type.valueType.isMissing then
    return .incomplete (← memberInfo head) (if type.isByRef then some type else none)
  else
    match ← kind with
    | .thisKw => indexerDecl head type
    | .operatorKw => if type.isByRef then abandoned head type else operatorDecl head type
    | .identifier => do
        match ← peek 1 with
        | .lParen | .lt => methodDecl head type
        | .lBrace | .arrow => propertyDecl head type
        | _ => if type.isByRef then methodDecl head type else fieldDecl head type
    | _ => abandoned head type

def conversionDecl (head : MemberHead) : Parse Member := do
  let op ← advance
  let keyword ← advance
  let type ← type
  let params ← roundParameters
  let body ← memberBody
  return .operator (← memberInfo head) type keyword (some (.single op)) params body

def constructorDecl (head : MemberHead) : Parse Member := do
  let name ← advance
  let params ← roundParameters
  let body ← memberBody
  return .constructor (← memberInfo head) name params body

def delegateDecl (head : MemberHead) : Parse Member := do
  let keyword ← advance
  let qualifier? ← refQualifier?
  let type ← qualifiedType qualifier?
  let name? ← expect .identifier
  let typeParams? ← typeParameters?
  let params ← roundParameters
  let semicolon? ← expect .semicolon
  return .delegate (← memberInfo head) keyword type name? typeParams? params semicolon?

def clauseType : Parse TypeSyntax := do
  let type ← type
  if type.isMissing then synchronize .directiveRecovery
  return type

def baseTypes : Parse (List TypeSyntax) := do
  match ← eat .colon with
  | none => return []
  | some _ => separated clauseType

def typeDecl (members : Parse (List Member)) (head : MemberHead) (kind : TypeDeclKind) :
    Parse Member := do
  let keyword ← advance
  let name? ← expect .identifier
  let typeParams? ← typeParameters?
  let bases ← baseTypes
  let (opening?, members, closing?) ← braced members
  let semicolon? ← eat .semicolon
  return .typeDecl (← memberInfo head) ⟨kind, keyword, name?, typeParams?, bases⟩ opening? members
    closing? semicolon?

def namespaceDecl (members : Parse (List Member)) (head : MemberHead) : Parse Member := do
  let keyword ← advance
  let name ← type
  let (opening?, members, closing?) ← braced members
  return .namespaceDecl (← memberInfo head) keyword name opening? members closing?

def usingDirective (head : MemberHead) : Parse Member := do
  let keyword ← advance
  let name ← clauseType
  let semicolon? ← expect .semicolon
  return .usingDirective (← memberInfo head) keyword name semicolon?

/-! ## Members -/

/-- The member behind a head, given how the members inside it are read. -/
def declaredMember (nested : ParseContext → Parse (List Member)) (context : ParseContext)
    (head : MemberHead) : Parse Member := do
  let members := nested context.enterType
  if head.qualifier?.isSome then typedMember head
  else
    match ← kind with
    | .classKw => typeDecl members head .classDecl
    | .structKw => typeDecl members head .structDecl
    | .interfaceKw => typeDecl members head .interfaceDecl
    | .delegateKw => delegateDecl head
    | .implicitKw | .explicitKw => do
        if (← peek 1) == .operatorKw then conversionDecl head else typedMember head
    | .identifier => do
        if (← peek 1) == .lParen then constructorDecl head else typedMember head
    | _ => typedMember head

/-- A member. Only at an `implicit` or `explicit` without `operator` nothing may be taken. -/
def member (nested : ParseContext → Parse (List Member)) (context : ParseContext) :
    Parse Member := do
  match ← kind with
  | .usingKw => usingDirective ⟨← position, .empty, none⟩
  | .namespaceKw => namespaceDecl (nested context.enterNamespace) ⟨← position, .empty, none⟩
  | _ => declaredMember nested context (← memberHead)

/-- Skips a symbol that starts no member, and on to where the next may start. -/
def skippedMember (context : ParseContext) : Parse Member := do
  let start ← position
  noteHere (if context.inTypeBody then .strayInType else .strayOutside)
  let _ ← advance
  moveTo fun sentence => sentence.memberBoundary context.memberStart.contains
  return .skipped ⟨.empty, ← rangeFrom start⟩

/-- A member that takes a symbol: one where nothing was taken is skipped instead. -/
def someMember (nested : ParseContext → Parse (List Member)) (context : ParseContext) :
    Parse Member := do
  let start ← position
  let member ←
    if ← checkAny context.memberStart then member nested context else skippedMember context
  if (← position) == start then
    let _ ← advance
    return .skipped ⟨.empty, ← rangeFrom start⟩
  else return member

/-- Whether the member list goes on: it ends at the end, and in braces at a `}`. -/
def hasMember (context : ParseContext) : Parse Bool :=
  ask fun sentence index =>
    let kind := sentence.kindAt index
    kind != .eof && !(kind == .rBrace && context.isBraced)

def membersWithin : Nat → ParseContext → Parse (List Member)
  | 0 => fun _ => return []
  | n + 1 => fun context =>
      many (whenever (hasMember context) (someMember (membersWithin n) context))

def members (context : ParseContext) : Parse (List Member) := do
  membersWithin (← left) context

def compilationUnit : Parse CompilationUnit := do
  let members ← members .none
  return ⟨members, ← position⟩

end TolerantSyntax.Parse
