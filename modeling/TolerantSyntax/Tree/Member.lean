import TolerantSyntax.Tree.Stmt

/-!
# Declaration trees
-/

namespace TolerantSyntax

structure TypeParameterList where
  lt : Nat
  params : List Nat
  gt? : Option Nat
deriving DecidableEq, Repr, Inhabited

structure Parameter where
  modifier? : Option Nat
  type : TypeSyntax
  name? : Option Nat
  value? : Option Expr

structure ParameterList where
  opening? : Option Nat
  params : List Parameter
  closing? : Option Nat

structure ArrowBody where
  arrow : Nat
  expr : Expr
  semicolon? : Option Nat

inductive MemberBody where
  | block (block : Block)
  | arrow (body : ArrowBody)
  | semicolon (semicolon? : Option Nat)

structure Accessor where
  modifiers : ModifierSet
  keyword : Nat
  body : MemberBody

inductive PropertyBody where
  | accessors (opening? : Option Nat) (accessors : List Accessor) (closing? : Option Nat)
  | arrow (body : ArrowBody)

inductive TypeDeclKind where
  | classDecl | structDecl | interfaceDecl
deriving DecidableEq, Repr, Inhabited

def TypeDeclKind.keyword : TypeDeclKind → String
  | .classDecl => "class"
  | .structDecl => "struct"
  | .interfaceDecl => "interface"

structure TypeHead where
  kind : TypeDeclKind
  keyword : Nat
  name? : Option Nat
  typeParams? : Option TypeParameterList
  bases : List TypeSyntax

/-- What every member has: its modifiers and all the tokens taken for it. -/
structure MemberInfo where
  modifiers : ModifierSet
  range : TokenRange
deriving DecidableEq, Repr, Inhabited

inductive Member where
  | field (info : MemberInfo) (type : TypeSyntax) (declarators : List Declarator)
      (semicolon? : Option Nat)
  | method (info : MemberInfo) (returnType : TypeSyntax) (name : Nat)
      (typeParams? : Option TypeParameterList) (params : ParameterList) (body : MemberBody)
  | property (info : MemberInfo) (type : TypeSyntax) (name : Nat) (body : PropertyBody)
  | indexer (info : MemberInfo) (type : TypeSyntax) (this : Nat) (params : ParameterList)
      (body : PropertyBody)
  /-- The tokens of the operator itself are a range: a right shift has two. -/
  | operator (info : MemberInfo) (returnType : TypeSyntax) (keyword : Nat)
      (op? : Option TokenRange) (params : ParameterList) (body : MemberBody)
  | constructor (info : MemberInfo) (name : Nat) (params : ParameterList) (body : MemberBody)
  | delegate (info : MemberInfo) (keyword : Nat) (returnType : TypeSyntax) (name? : Option Nat)
      (typeParams? : Option TypeParameterList) (params : ParameterList) (semicolon? : Option Nat)
  | typeDecl (info : MemberInfo) (head : TypeHead) (opening? : Option Nat) (members : List Member)
      (closing? semicolon? : Option Nat)
  | namespaceDecl (info : MemberInfo) (keyword : Nat) (name : TypeSyntax) (opening? : Option Nat)
      (members : List Member) (closing? : Option Nat)
  | usingDirective (info : MemberInfo) (keyword : Nat) (name : TypeSyntax) (semicolon? : Option Nat)
  /-- A declaration that was given up behind its type, or before it. -/
  | incomplete (info : MemberInfo) (type? : Option TypeSyntax)
  | skipped (info : MemberInfo)

namespace Member

instance : Inhabited Member := ⟨.skipped default⟩

def info : Member → MemberInfo
  | field info .. | method info .. | property info .. | indexer info .. | operator info ..
  | constructor info .. | delegate info .. | typeDecl info .. | namespaceDecl info ..
  | usingDirective info .. | incomplete info _ | skipped info => info

def modifiers (member : Member) : ModifierSet := member.info.modifiers

def range (member : Member) : TokenRange := member.info.range

def label : Member → String
  | field .. => "field"
  | method .. => "method"
  | property .. => "property"
  | indexer .. => "indexer"
  | operator .. => "operator"
  | constructor .. => "constructor"
  | delegate .. => "delegate"
  | typeDecl _ head .. => head.kind.keyword
  | namespaceDecl .. => "namespace"
  | usingDirective .. => "using"
  | incomplete .. => "incomplete member"
  | skipped _ => "skipped tokens"

end Member

/-- The root of a tree: the members, and the index of the end-of-file token. -/
structure CompilationUnit where
  members : List Member
  eof : Nat

end TolerantSyntax
