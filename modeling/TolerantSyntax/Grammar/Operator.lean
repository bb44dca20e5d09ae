import TolerantSyntax.Grammar.Sentence
import TolerantSyntax.Tree.Expr

/-!
# The operator table

Binary operators and type tests bind by precedence: the larger number binds tighter.

| precedence | operators                 |
|------------|---------------------------|
| 1          | `??`, to the right        |
| 2          | or                        |
| 3          | and                       |
| 4, 5, 6    | bitwise or, xor, and      |
| 7          | equality                  |
| 8          | order, `is`, `as`         |
| 9          | shifts                    |
| 10, 11     | sums, products            |
-/

namespace TolerantSyntax

def UnaryOp.ofKind? : TokenKind → Option UnaryOp
  | .plus => some .plus
  | .minus => some .neg
  | .bang => some .not
  | .tilde => some .bitNot
  | .plusPlus => some .preIncrement
  | .minusMinus => some .preDecrement
  | .star => some .deref
  | .amp => some .addressOf
  | _ => none

def StepOp.ofKind? : TokenKind → Option StepOp
  | .plusPlus => some .increment
  | .minusMinus => some .decrement
  | _ => none

def AssignOp.ofKind? : TokenKind → Option AssignOp
  | .eq => some .assign
  | .plusEq => some .add
  | .minusEq => some .sub
  | .starEq => some .mul
  | .slashEq => some .div
  | .percentEq => some .rem
  | .ampEq => some .bitAnd
  | .pipeEq => some .bitOr
  | .caretEq => some .bitXor
  | .ltLtEq => some .shl
  | _ => none

namespace BinaryOp

/-- The operator that a single symbol is; a right shift is two symbols. -/
def ofKind? : TokenKind → Option BinaryOp
  | .questionQuestion => some .coalesce
  | .pipePipe => some .or
  | .ampAmp => some .and
  | .pipe => some .bitOr
  | .caret => some .bitXor
  | .amp => some .bitAnd
  | .eqEq => some .eq
  | .bangEq => some .notEq
  | .lt => some .lt
  | .ltEq => some .ltEq
  | .gt => some .gt
  | .gtEq => some .gtEq
  | .ltLt => some .shl
  | .plus => some .add
  | .minus => some .sub
  | .star => some .mul
  | .slash => some .div
  | .percent => some .rem
  | _ => none

def precedence : BinaryOp → Nat
  | coalesce => 1
  | or => 2
  | and => 3
  | bitOr => 4
  | bitXor => 5
  | bitAnd => 6
  | eq | notEq => 7
  | lt | ltEq | gt | gtEq => 8
  | shl | shr => 9
  | add | sub => 10
  | mul | div | rem => 11

def isRightAssociative : BinaryOp → Bool
  | coalesce => true
  | _ => false

def rightLevel (op : BinaryOp) : Nat :=
  if op.isRightAssociative then op.precedence else op.precedence + 1

def width : BinaryOp → Nat
  | shr => 2
  | _ => 1

end BinaryOp

/-- What may continue an expression at the levels of the table. -/
inductive InfixOp where
  | binary (op : BinaryOp)
  | isTest
  | asTest
deriving DecidableEq, Repr, Inhabited

namespace InfixOp

def precedence : InfixOp → Nat
  | binary op => op.precedence
  | isTest | asTest => 8

def width : InfixOp → Nat
  | binary op => op.width
  | isTest | asTest => 1

end InfixOp

def Sentence.infixAt? (sentence : Sentence) (index : Nat) : Option InfixOp :=
  if sentence.shiftAt index then some (.binary .shr)
  else
    match sentence.kindAt index with
    | .isKw => some .isTest
    | .asKw => some .asTest
    | kind => (BinaryOp.ofKind? kind).map .binary

end TolerantSyntax
