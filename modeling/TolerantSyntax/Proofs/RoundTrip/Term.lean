import TolerantSyntax.Proofs.Flatten.Tree
import TolerantSyntax.Proofs.Lexer.Relexing
import TolerantSyntax.Proofs.Precedence

/-!
# Terms and how they are written

A term is an operator expression over literals and `this`, apart from any text.  It is
written token by token with a blank in front of each, and without any parenthesis that is not
its own: how it groups is told by the levels of its operands alone.
-/

namespace TolerantSyntax

/-- A token to be written, behind a blank or directly behind the one in front of it. -/
structure Sign where
  kind : TokenKind
  text : String
  joined : Bool
deriving DecidableEq, Repr

namespace Sign

def fixed (kind : TokenKind) : Sign := ⟨kind, kind.fixedText?.getD "", false⟩

def written (sign : Sign) : String := if sign.joined then sign.text else " " ++ sign.text

def IsToken (kind : TokenKind) (text : String) : Prop :=
  (Lexeme.ofText text).map (·.rule) = [.token kind]

instance (kind : TokenKind) (text : String) : Decidable (IsToken kind text) :=
  inferInstanceAs (Decidable (_ = _))

end Sign

/-- A right shift is two tokens that touch. -/
def BinaryOp.signs : BinaryOp → List Sign
  | shr => [.fixed .gt, { Sign.fixed .gt with joined := true }]
  | op => op.symbols.map .fixed

inductive Term where
  | literal (kind : TokenKind) (text : String)
  | this
  | parenthesized (inner : Term)
  | memberAccess (receiver : Term) (name : String)
  | invocation (callee : Term) (args : List Term)
  | elementAccess (receiver : Term) (args : List Term)
  | step (op : StepOp) (operand : Term)
  | unary (op : UnaryOp) (operand : Term)
  | binary (op : BinaryOp) (left right : Term)
  | conditional (condition whenTrue whenFalse : Term)
  | assign (op : AssignOp) (target value : Term)

namespace Term

def level : Term → Nat
  | assign .. | conditional .. => 0
  | binary op _ _ => op.precedence
  | unary .. => 12
  | _ => 13

/-- Terms whose tokens are what they should be and whose operands are as tight as the
operators demand. -/
inductive WellFormed : Term → Prop where
  | literal {kind : TokenKind} {text : String} (hkind : kind.isLiteral = true)
      (htext : Sign.IsToken kind text) : WellFormed (.literal kind text)
  | this : WellFormed .this
  | parenthesized {inner : Term} (hinner : WellFormed inner) : WellFormed (.parenthesized inner)
  | memberAccess {receiver : Term} {name : String} (htight : 13 ≤ receiver.level)
      (hreceiver : WellFormed receiver) (hname : Sign.IsToken .identifier name) :
      WellFormed (.memberAccess receiver name)
  | invocation {callee : Term} {args : List Term} (htight : 13 ≤ callee.level)
      (hcallee : WellFormed callee) (hargs : ∀ arg ∈ args, WellFormed arg) :
      WellFormed (.invocation callee args)
  | elementAccess {receiver : Term} {args : List Term} (htight : 13 ≤ receiver.level)
      (hreceiver : WellFormed receiver) (hargs : ∀ arg ∈ args, WellFormed arg)
      (hsome : args ≠ []) : WellFormed (.elementAccess receiver args)
  | step {op : StepOp} {operand : Term} (htight : 13 ≤ operand.level)
      (hoperand : WellFormed operand) : WellFormed (.step op operand)
  | unary {op : UnaryOp} {operand : Term} (htight : 12 ≤ operand.level)
      (hoperand : WellFormed operand) : WellFormed (.unary op operand)
  | binary {op : BinaryOp} {left right : Term} (htight : op.leftLevel ≤ left.level)
      (htight' : op.rightLevel ≤ right.level) (hleft : WellFormed left)
      (hright : WellFormed right) : WellFormed (.binary op left right)
  | conditional {condition whenTrue whenFalse : Term} (htight : 1 ≤ condition.level)
      (hcondition : WellFormed condition) (htrue : WellFormed whenTrue)
      (hfalse : WellFormed whenFalse) :
      WellFormed (.conditional condition whenTrue whenFalse)
  | assign {op : AssignOp} {target value : Term} (htight : 1 ≤ target.level)
      (htarget : WellFormed target) (hvalue : WellFormed value) :
      WellFormed (.assign op target value)

mutual

/-- The tokens of a term. -/
def signs : Term → List Sign
  | literal kind text => [⟨kind, text, false⟩]
  | this => [.fixed .thisKw]
  | parenthesized inner => .fixed .lParen :: (inner.signs ++ [.fixed .rParen])
  | memberAccess receiver name => receiver.signs ++ [.fixed .dot, ⟨.identifier, name, false⟩]
  | invocation callee args =>
      callee.signs ++ .fixed .lParen :: ((argumentSigns args).tail ++ [.fixed .rParen])
  | elementAccess receiver args =>
      receiver.signs ++ .fixed .lBracket :: ((argumentSigns args).tail ++ [.fixed .rBracket])
  | step op operand => operand.signs ++ [.fixed op.symbol]
  | unary op operand => .fixed op.symbol :: operand.signs
  | binary op left right => left.signs ++ (op.signs ++ right.signs)
  | conditional condition whenTrue whenFalse =>
      condition.signs ++ .fixed .question ::
        (whenTrue.signs ++ .fixed .colon :: whenFalse.signs)
  | assign op target value => target.signs ++ .fixed op.symbol :: value.signs

def argumentSigns : List Term → List Sign
  | [] => []
  | arg :: rest => .fixed .comma :: (arg.signs ++ argumentSigns rest)

end

def text (term : Term) : String := String.join (term.signs.map (·.written))

end Term

mutual

/-- The term that an expression is, given how every token is spelled. -/
def Expr.term? (word : Nat → Spelling) : Expr → Option Term
  | .literal _ token => some (.literal (word token).kind (word token).text)
  | .thisRef _ _ => some .this
  | .parenthesized _ inner => do return .parenthesized (← inner.term? word)
  | .memberAccess _ receiver _ (some name) none => do
      return .memberAccess (← receiver.term? word) (word name).text
  | .invocation _ callee args => do
      return .invocation (← callee.term? word) (← args.terms? word)
  | .elementAccess _ receiver args => do
      return .elementAccess (← receiver.term? word) (← args.terms? word)
  | .step _ op operand => do return .step op (← operand.term? word)
  | .unary _ op operand => do return .unary op (← operand.term? word)
  | .binary _ op left right => do
      return .binary op (← left.term? word) (← right.term? word)
  | .conditional _ condition whenTrue whenFalse => do
      return .conditional (← condition.term? word) (← whenTrue.term? word)
        (← whenFalse.term? word)
  | .assign _ op target value => do
      return .assign op (← target.term? word) (← value.term? word)
  | _ => none

def ArgumentList.terms? (word : Nat → Spelling) : ArgumentList → Option (List Term)
  | .mk _ args _ => argumentTerms? word args

def Argument.term? (word : Nat → Spelling) : Argument → Option Term
  | .mk none value => value.term? word
  | .mk (some _) _ => none

def argumentTerms? (word : Nat → Spelling) : List Argument → Option (List Term)
  | [] => some []
  | arg :: rest => do return (← arg.term? word) :: (← argumentTerms? word rest)

end

attribute [simp] Expr.term? argumentTerms?

end TolerantSyntax
