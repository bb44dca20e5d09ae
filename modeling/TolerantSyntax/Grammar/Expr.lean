import TolerantSyntax.Grammar.Operator
import TolerantSyntax.Grammar.Type

/-!
# The grammar of expressions

Each production is given how the expressions inside it are read, at one of four levels.
It reads them only behind a symbol of its own, so the symbols left bound the nesting.

`(T)x` may be a cast and `f<T>` a generic name. A cast is decided by the symbols alone;
type arguments are read as such when the `>` is there and a symbol follows that cannot
continue a comparison.
-/

namespace TolerantSyntax

inductive ExprLevel where
  | full
  /-- Operators of the table from a precedence on. -/
  | binary (least : Nat)
  | unary
  | initializer
deriving DecidableEq, Repr

/-- Whether `(` opens a cast: a type, `)`, and a symbol that starts an operand. Behind a
keyword type any expression may follow, even one that starts with a sign. -/
def Sentence.castAt (sentence : Sentence) (typeEnd? : Nat → Option Nat) (opening : Nat) : Bool :=
  match typeEnd? (opening + 1) with
  | none => false
  | some closing =>
      let isKeyword :=
        closing == opening + 2 && (sentence.kindAt (opening + 1)).isPredefinedType
      let follow := if isKeyword then TokenSet.expressionStart else TokenSet.castOperandStart
      sentence.kindAt closing == .rParen && follow.contains (sentence.kindAt (closing + 1))

namespace Parse

def argument (nested : ExprLevel → Parse Expr) : Parse Argument := do
  let modifier? ← whenever (checkAny .argumentModifiers) advance
  return .mk modifier? (← nested .full)

def argumentList (nested : ExprLevel → Parse Expr) (closing : TokenKind) :
    Parse ArgumentList := do
  let opening ← advance
  let args ← if ← check closing then pure [] else separated (argument nested)
  let closing? ← expect closing
  return .mk opening args closing?

def initializerElement (nested : ExprLevel → Parse Expr) : Parse Expr := do
  nested (if ← check .lBrace then .initializer else .full)

def arrayInitializer (nested : ExprLevel → Parse Expr) : Parse Expr := do
  let start ← position
  let _ ← advance
  let elements ← listed (initializerElement nested) .rBrace
  let _ ← expect .rBrace
  complete start fun info => .arrayInitializer info elements

/-- `<T>` behind a name, if what follows confirms it. -/
def confirmedArguments : Parse (Option TypeArguments) := do
  let args ← typeArguments type
  if args.gt?.isSome && (← checkAny .genericNameFollow) then return some args else return none

def typeArguments? : Parse (Option TypeArguments) := do
  if ← check .lt then attempt confirmedArguments else return none

/-! ## Primary expressions -/

def parenthesized (nested : ExprLevel → Parse Expr) : Parse Expr := do
  let start ← position
  let opening ← advance
  let first ← nested .full
  match ← eat .comma with
  | none => do
      let _ ← expect .rParen
      complete start fun info => .parenthesized info first
  | some _ => do
      note (.uses .tuples opening)
      let rest ← separated (nested .full)
      let _ ← expect .rParen
      complete start fun info => .tuple info (first :: rest)

def sizedRank (nested : ExprLevel → Parse Expr) : Parse SizedRank := do
  if ← ask Sentence.rankAt then return (← arrayRank).toSized
  else
    let opening ← advance
    let sizes ← separated (nested .full)
    let closing? ← expect .rBracket
    return .mk opening sizes.length sizes closing?

def creation (nested : ExprLevel → Parse Expr) : Parse Expr := do
  let start ← position
  let keyword ← advance
  let type ← type
  if ← check .lBracket then
    let ranks ← many (whenever (check .lBracket) (sizedRank nested))
    let items? ← whenever (check .lBrace) (nested .initializer)
    complete start fun info => .newArray info keyword type ranks items?
  else
    match type.splitArray? with
    | some (element, ranks) => do
        let items? ← whenever (check .lBrace) (nested .initializer)
        if items?.isNone then noteHere (.absent .lBrace)
        complete start fun info =>
          .newArray info keyword element (ranks.map (·.toSized)) items?
    | none => do
        let args? ← whenever (check .lParen) (argumentList nested .rParen)
        let items? ← whenever (check .lBrace) (nested .initializer)
        if args?.isNone && items?.isNone then noteHere (.absent .lParen)
        complete start fun info => .newObject info keyword type args? items?

def defaultValue : Parse Expr := do
  let start ← position
  let keyword ← advance
  match ← eat .lParen with
  | none => complete start fun info => .defaultValue info keyword none
  | some _ => do
      let type ← type
      let _ ← expect .rParen
      complete start fun info => .defaultValue info keyword (some type)

def typeOf : Parse Expr := do
  let start ← position
  let keyword ← advance
  let _ ← expect .lParen
  let type ← type
  let _ ← expect .rParen
  complete start fun info => .typeOf info keyword type

def throwExpr (nested : ExprLevel → Parse Expr) : Parse Expr := do
  let start ← position
  noteHere (.uses .throwExpressions)
  let keyword ← advance
  let operand ← nested .full
  complete start fun info => .throwExpr info keyword operand

def name : Parse Expr := do
  let start ← position
  let token ← advance
  match ← typeArguments? with
  | none => complete start fun info => .name info token
  | some args => complete start fun info => .genericName info token args

def single (make : ExprInfo → Nat → Expr) : Parse Expr := do
  let start ← position
  let token ← advance
  complete start fun info => make info token

def missingExpr : Parse Expr := do
  noteHere .invalidTerm
  complete (← position) .missing

def primary (nested : ExprLevel → Parse Expr) : Parse Expr := do
  match ← kind with
  | .identifier => name
  | .thisKw => single .thisRef
  | .baseKw => single .baseRef
  | .lParen => parenthesized nested
  | .newKw => creation nested
  | .defaultKw => defaultValue
  | .typeofKw => typeOf
  | .throwKw => throwExpr nested
  | kind =>
      if kind.isLiteral then single .literal
      else if kind.isPredefinedType then single .predefinedType
      else missingExpr

/-! ## Suffixes and operators -/

/-- `.b`, `(args)`, `[args]`, `++` or `--` behind an expression that starts at `start`. -/
def exprSuffix? (nested : ExprLevel → Parse Expr) (start : Nat) (expr : Expr) :
    Parse (Option Expr) := do
  match ← kind with
  | .dot => do
      let dot ← advance
      let name? ← expect .identifier
      let args? ← if name?.isSome then typeArguments? else pure none
      return some (← complete start fun info => .memberAccess info expr dot name? args?)
  | .lParen => do
      let args ← argumentList nested .rParen
      return some (← complete start fun info => .invocation info expr args)
  | .lBracket => do
      let args ← argumentList nested .rBracket
      return some (← complete start fun info => .elementAccess info expr args)
  | kind =>
      match StepOp.ofKind? kind with
      | some op => do
          let _ ← advance
          return some (← complete start fun info => .step info op expr)
      | none => return none

def suffixed (nested : ExprLevel → Parse Expr) : Parse Expr := do
  let start ← position
  grow (exprSuffix? nested start) (← primary nested)

def mayBeCast : Parse Bool := fun input state =>
  (input.sentence.castAt (input.sentence.typeEnd? input.tupleEnd) state.position, state)

def castHead : Parse (Option TypeSyntax) := do
  let _ ← advance
  let type ← type
  if type.isMissing then return none
  else
    match ← eat .rParen with
    | none => return none
    | some _ =>
        let follow := if type.isPredefined then TokenSet.expressionStart else .castOperandStart
        if ← checkAny follow then return some type else return none

def castHead? : Parse (Option TypeSyntax) := do
  if ← mayBeCast then attempt castHead else return none

def unary (nested : ExprLevel → Parse Expr) : Parse Expr := do
  let start ← position
  match ← kind with
  | .refKw => do
      noteHere (.uses .refLocalsAndReturns)
      let keyword ← advance
      let operand ← nested .unary
      complete start fun info => .refExpr info keyword operand
  | .lParen => do
      match ← castHead? with
      | some type => do
          let operand ← nested .unary
          complete start fun info => .cast info type operand
      | none => suffixed nested
  | kind =>
      match UnaryOp.ofKind? kind with
      | some op => do
          let _ ← advance
          let operand ← nested .unary
          complete start fun info => .unary info op operand
      | none => suffixed nested

/-- Continues an expression that starts at `start` by an operator of at least the
precedence `least`, and its right side. -/
def infixStep? (nested : ExprLevel → Parse Expr) (start least : Nat) (left : Expr) :
    Parse (Option Expr) := do
  match ← ask Sentence.infixAt? with
  | none => return none
  | some op =>
      if op.precedence < least then return none
      else do
        moveTo fun _ index => index + op.width
        match op with
        | .isTest => do
            let type ← type
            return some (← complete start fun info => .isType info left type)
        | .asTest => do
            let type ← type
            return some (← complete start fun info => .asType info left type)
        | .binary op => do
            let right ← nested (.binary op.rightLevel)
            return some (← complete start fun info => .binary info op left right)

def binary (nested : ExprLevel → Parse Expr) (least : Nat) : Parse Expr := do
  let start ← position
  grow (infixStep? nested start least) (← unary nested)

def conditional (nested : ExprLevel → Parse Expr) : Parse Expr := do
  let start ← position
  let condition ← binary nested 1
  match ← eat .question with
  | none => return condition
  | some _ => do
      let whenTrue ← nested .full
      let _ ← expect .colon
      let whenFalse ← nested .full
      complete start fun info => .conditional info condition whenTrue whenFalse

def assignment (nested : ExprLevel → Parse Expr) : Parse Expr := do
  let start ← position
  let target ← conditional nested
  match AssignOp.ofKind? (← kind) with
  | none => return target
  | some op => do
      let _ ← advance
      let value ← nested .full
      complete start fun info => .assign info op target value

def exprStep (nested : ExprLevel → Parse Expr) : ExprLevel → Parse Expr
  | .full => assignment nested
  | .binary least => binary nested least
  | .unary => unary nested
  | .initializer => arrayInitializer nested

def exprWithin : Nat → ExprLevel → Parse Expr
  | 0 => fun _ => missingExpr
  | n + 1 => exprStep (exprWithin n)

def exprAt (level : ExprLevel) : Parse Expr := do exprWithin (← left) level

/-- A full expression. Where none starts, nothing is taken. -/
def expr : Parse Expr := exprAt .full

def variableValue : Parse Expr := initializerElement exprAt

end Parse
end TolerantSyntax
