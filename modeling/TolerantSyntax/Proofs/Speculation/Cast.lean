import TolerantSyntax.Grammar.Expr

/-!
# A cast as one attempt

A cast can be tried as a whole, with its operand.  Nothing can fail behind the symbol that
confirms it, so it comes to the same to try only the part in front of the operand.
-/

namespace TolerantSyntax.Parse

variable (nested : ExprLevel → Parse Expr)

def castOperand (start : Nat) (type : TypeSyntax) : Parse Expr := do
  let operand ← nested .unary
  complete start fun info => .cast info type operand

/-- `(T)operand` if the symbol behind the `)` confirms it, at the `(`. -/
def castExpr : Parse (Option Expr) := do
  let start ← position
  match ← castHead with
  | none => return none
  | some type => some <$> castOperand nested start type

def castExpr? : Parse (Option Expr) := do
  if ← mayBeCast then attempt (castExpr nested) else return none

theorem castExpr_eq (input : Input) (state : ParseState) :
    castExpr nested input state =
      match castHead input state with
      | (none, after) => (none, after)
      | (some type, after) => (some <$> castOperand nested state.position type) input after := by
  have hbind : castExpr nested input state =
      (match (castHead input state).1 with
      | none => Pure.pure none
      | some type => some <$> castOperand nested state.position type : Parse (Option Expr))
        input (castHead input state).2 := rfl
  rw [hbind]
  rcases castHead input state with ⟨_ | type, after⟩ <;> rfl

theorem isSome_castExpr (input : Input) (state : ParseState) :
    (castExpr nested input state).1.isSome = (castHead input state).1.isSome := by
  rw [castExpr_eq]
  rcases castHead input state with ⟨_ | type, after⟩ <;> rfl

theorem castExpr?_eq (input : Input) (state : ParseState) :
    castExpr? nested input state =
      match castHead? input state with
      | (none, after) => (none, after)
      | (some type, after) => (some <$> castOperand nested state.position type) input after := by
  have hif : castExpr? nested input state =
      (if (mayBeCast input state).1 then attempt (castExpr nested) else Pure.pure none)
        input state := rfl
  have hhead : castHead? input state =
      (if (mayBeCast input state).1 then attempt castHead else Pure.pure none) input state := rfl
  rw [hif, hhead]
  split
  · unfold attempt
    rw [castExpr_eq]
    rcases castHead input state with ⟨_ | type, after⟩ <;> rfl
  · rfl

def castOrSuffixed : Parse Expr := do
  match ← castExpr? nested with
  | some cast => return cast
  | none => suffixed nested

theorem castOrSuffixed_eq (input : Input) (state : ParseState) :
    castOrSuffixed nested input state = (do
      match ← castHead? with
      | some type => castOperand nested state.position type
      | none => suffixed nested : Parse Expr) input state := by
  have hwhole : castOrSuffixed nested input state =
      (match (castExpr? nested input state).1 with
      | some cast => Pure.pure cast
      | none => suffixed nested : Parse Expr) input (castExpr? nested input state).2 := rfl
  have hhead : (do
      match ← castHead? with
      | some type => castOperand nested state.position type
      | none => suffixed nested : Parse Expr) input state =
      (match (castHead? input state).1 with
      | some type => castOperand nested state.position type
      | none => suffixed nested : Parse Expr) input (castHead? input state).2 := rfl
  rw [hwhole, hhead, castExpr?_eq]
  rcases castHead? input state with ⟨_ | type, after⟩ <;> rfl

def prefixed (atParen : Nat → Parse Expr) : Parse Expr := do
  let start ← position
  match ← kind with
  | .refKw => do
      noteHere (.uses .refLocalsAndReturns)
      let keyword ← advance
      let operand ← nested .unary
      complete start fun info => .refExpr info keyword operand
  | .lParen => atParen start
  | kind =>
      match UnaryOp.ofKind? kind with
      | some op => do
          let _ ← advance
          let operand ← nested .unary
          complete start fun info => .unary info op operand
      | none => suffixed nested

theorem unary_eq_prefixed : unary nested = prefixed nested fun _ => castOrSuffixed nested := by
  funext input state
  have hparen := (castOrSuffixed_eq nested input state).symm
  unfold unary prefixed
  simp only [bind, ReaderT.bind, StateT.bind, position, kind, ask]
  generalize input.sentence.kindAt state.position = kind
  cases kind
  case lParen => exact hparen
  all_goals rfl

end TolerantSyntax.Parse
