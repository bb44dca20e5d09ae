import TolerantSyntax.Proofs.Fidelity
import TolerantSyntax.Proofs.Keeps.Member
import TolerantSyntax.SyntaxTree

/-!
# Trees respect precedence

Every operand is at least as tight as its operator demands, whatever the text is.  An
expression at a level is never looser than the level.  What makes it work on the left is the
other half of the invariant: behind an expression at a level no operator of that level is left,
so that an operator that comes next is too loose for the right operand and fits behind it.
-/

namespace TolerantSyntax

namespace BinaryOp

/-- The least level of the left operand. -/
def leftLevel (op : BinaryOp) : Nat :=
  if op.isRightAssociative then op.precedence + 1 else op.precedence

theorem precedence_le (op : BinaryOp) : op.precedence ≤ 11 := by cases op <;> decide

theorem precedence_le_rightLevel (op : BinaryOp) : op.precedence ≤ op.rightLevel := by
  cases op <;> decide

theorem precedence_le_leftLevel (op : BinaryOp) : op.precedence ≤ op.leftLevel := by
  cases op <;> decide

theorem precedence_pos (op : BinaryOp) : 1 ≤ op.precedence := by cases op <;> decide

theorem rightLevel_pos (op : BinaryOp) : 1 ≤ op.rightLevel := by cases op <;> decide

theorem rightLevel_le (op : BinaryOp) : op.rightLevel ≤ 12 := by cases op <;> decide

end BinaryOp

namespace InfixOp

def leftLevel : InfixOp → Nat
  | binary op => op.leftLevel
  | isTest | asTest => 8

theorem leftLevel_le (op : InfixOp) : op.leftLevel ≤ 11 := by
  cases op with
  | binary op => cases op <;> decide
  | isTest | asTest => decide

/-- An operator may stand behind another with its operands when it is too loose for the right
one. -/
theorem leftLevel_le_iff {op : BinaryOp} {next : InfixOp} :
    next.leftLevel ≤ op.precedence ↔ next.precedence < op.rightLevel := by
  have hleft : next.leftLevel = next.precedence ∧ 2 ≤ next.precedence ∨
      next.leftLevel = 2 ∧ next.precedence = 1 := by
    cases next with
    | binary next => cases next <;> decide
    | isTest | asTest => decide
  have hright : op.rightLevel = op.precedence + 1 ∧ 2 ≤ op.precedence ∨
      op.rightLevel = 1 ∧ op.precedence = 1 := by
    cases op <;> decide
  omega

end InfixOp

namespace Expr

/-- How tight an expression is: the precedence of its operator, 0 for an assignment and a
conditional, 12 with an operator in front, 13 for all else. -/
def level : Expr → Nat
  | assign .. | conditional .. => 0
  | binary _ op _ _ => op.precedence
  | isType .. | asType .. => 8
  | unary .. | refExpr .. | cast .. => 12
  | _ => 13

def isTypeTest : Expr → Bool
  | isType .. | asType .. => true
  | _ => false

theorem level_of_isTypeTest {expr : Expr} (h : expr.isTypeTest = true) : expr.level = 8 := by
  cases expr <;> first | rfl | cases h

/-- The operands are as tight as the operator demands.  A type test ends in a type, so it may
stand to the left of any operator. -/
def Levelled : Expr → Prop
  | binary _ op left right =>
      (left.isTypeTest = true ∨ op.leftLevel ≤ left.level) ∧ op.rightLevel ≤ right.level
  | isType _ operand _ | asType _ operand _ => 8 ≤ operand.level
  | assign _ _ operand _ | conditional _ operand _ _ => 1 ≤ operand.level
  | unary _ _ operand | refExpr _ _ operand | cast _ _ operand => 12 ≤ operand.level
  | memberAccess _ operand _ _ _ | invocation _ operand _ | elementAccess _ operand _
  | step _ _ operand => 13 ≤ operand.level
  | _ => True

/-- Whether an operator may stand behind an expression that is already complete. -/
def Takes (expr : Expr) (op : InfixOp) : Prop :=
  expr.isTypeTest = true ∨ op.leftLevel ≤ expr.level

theorem Takes.of_level {expr : Expr} (h : 11 ≤ expr.level) (op : InfixOp) : expr.Takes op :=
  .inr (Nat.le_trans op.leftLevel_le h)

theorem levelled_of_isPlain {expr : Expr} (h : expr.isPlain = true) :
    expr.Levelled ∧ 13 ≤ expr.level := by
  cases expr <;> first | exact ⟨trivial, Nat.le_refl _⟩ | cases h

end Expr

namespace ExprLevel

def floor : ExprLevel → Nat
  | full | initializer => 0
  | binary least => min least 12
  | unary => 12

/-- What is known of the symbol behind an expression that was read at a level. -/
def Closes (sentence : Sentence) (index : Nat) : ExprLevel → Prop
  | full => AssignOp.ofKind? (sentence.kindAt index) = none
  | binary least => ∀ op, sentence.infixAt? index = some op → op.precedence < least
  | unary | initializer => True

theorem floor_le (level : ExprLevel) : level.floor ≤ 13 := by
  cases level <;> simp only [floor] <;> omega

end ExprLevel

theorem ExprLevel.closes_of_eof {sentence : Sentence} {index : Nat} (level : ExprLevel)
    (h : sentence.kindAt index = .eof) : level.Closes sentence index := by
  cases level with
  | full => rw [Closes, h]; rfl
  | binary least =>
      intro op hop
      rw [Sentence.infixAt?_of_eof h] at hop
      cases hop
  | unary | initializer => trivial

namespace Parse

variable {bound : Nat} {input : Input} {nested : ExprLevel → Parse Expr}

/-! ## Operator expressions -/

theorem name_levelled : KeepsWith Expr.Levelled bound input (13 ≤ ·.level) name := by
  refine (Keeps.ask _).bindWith fun _ => Keeps.advance.bindWith fun _ =>
    Keeps.typeArguments?.bindWith fun args? => ?_
  cases args? with
  | none => exact .complete (fun _ => trivial) fun _ => Nat.le_refl 13
  | some args => exact .complete (fun _ => trivial) fun _ => Nat.le_refl 13

theorem grown_levelled {start : Nat} {make : ExprInfo → Expr} (hmake : ∀ info, (make info).Levelled)
    (hlevel : ∀ info, (make info).level = 13) :
    KeepsWith Expr.Levelled bound input (fun grown? => ∀ grown ∈ grown?, 13 ≤ grown.level) do
      return some (← complete start make) := by
  have hcomplete : KeepsWith Expr.Levelled bound input (13 ≤ ·.level) (complete start make) :=
    .complete hmake fun info => Nat.le_of_eq (hlevel info).symm
  refine hcomplete.bind fun grown hgrown => .pure ?_
  rintro _ ⟨⟩
  exact hgrown

section Tight

variable (hinput : input.sentence.Unbroken)
  (hnested : ∀ level, KeepsWith Expr.Levelled bound input (level.floor ≤ ·.level) (nested level))
include hinput hnested

theorem exprSuffix?_levelled (start : Nat) {expr : Expr} (hexpr : 13 ≤ expr.level) :
    KeepsWith Expr.Levelled (bound + 1) input (fun grown? => ∀ grown ∈ grown?, 13 ≤ grown.level)
      (exprSuffix? nested start expr) := by
  have hargs : ∀ closing, Keeps Expr.Levelled (bound + 1) input (argumentList nested closing) :=
    fun closing =>
      .behind hinput (Keeps.argumentsBehind (fun level => (hnested level).keeps) closing)
  unfold exprSuffix?
  refine (Keeps.ask _).bindWith fun kind => ?_
  split
  · refine Keeps.advance.bindWith fun dot => (Keeps.expect _).bindWith fun name? => .ite ?_ ?_
    · exact Keeps.typeArguments?.bindWith fun _ => grown_levelled (fun _ => hexpr) fun _ => rfl
    · exact (Keeps.pure none).bindWith fun _ => grown_levelled (fun _ => hexpr) fun _ => rfl
  · exact (hargs _).bindWith fun _ => grown_levelled (fun _ => hexpr) fun _ => rfl
  · exact (hargs _).bindWith fun _ => grown_levelled (fun _ => hexpr) fun _ => rfl
  · split
    · exact Keeps.advance.bindWith fun _ => grown_levelled (fun _ => hexpr) fun _ => rfl
    · exact .pure nofun

theorem suffixed_levelled :
    KeepsWith Expr.Levelled (bound + 1) input (13 ≤ ·.level) (suffixed nested) := by
  have hprimary : KeepsWith Expr.Levelled (bound + 1) input (13 ≤ ·.level) (primary nested) :=
    .primary (fun level => (hnested level).keeps) hinput (fun _ => Expr.levelled_of_isPlain)
      name_levelled
  refine (Keeps.ask _).bindWith fun start => hprimary.bind fun first hfirst => ?_
  exact .grow (fun _ => exprSuffix?_levelled hinput hnested start) hfirst

theorem unary_levelled :
    KeepsWith Expr.Levelled (bound + 1) input (12 ≤ ·.level) (unary nested) := by
  have hsuffixed : KeepsWith Expr.Levelled (bound + 1) input (12 ≤ ·.level) (suffixed nested) :=
    fun state hstate => (suffixed_levelled hinput hnested state hstate).imp
      fun _ _ hafter => ⟨hafter.1, Nat.le_of_succ_le hafter.2⟩
  unfold unary
  refine (Keeps.ask _).bindWith fun start => (Keeps.ask _).bindWith fun kind => ?_
  split
  · refine (Keeps.noteHere _).bindWith fun _ => .behind hinput fun keyword =>
      (hnested .unary).bind fun operand hoperand => ?_
    exact .complete (fun _ => hoperand) fun _ => Nat.le_refl 12
  · intro state hstate
    refine (castHead?_all hinput hstate).bind fun type? after hafter => ?_
    cases type? with
    | none => exact hsuffixed after hafter
    | some type =>
        have hcast : KeepsWith Expr.Levelled bound input (12 ≤ ·.level) (do
            let operand ← nested .unary
            complete start fun info => .cast info type operand) :=
          (hnested .unary).bind fun operand hoperand =>
            .complete (fun _ => hoperand) fun _ => Nat.le_refl 12
        exact (hcast after hafter).imp fun _ _ hlast => ⟨hlast.1.weaken, hlast.2⟩
  · split
    · refine .behind hinput fun _ => (hnested .unary).bind fun operand hoperand => ?_
      exact .complete (fun _ => hoperand) fun _ => Nat.le_refl 12
    · exact hsuffixed

end Tight

/-- What is read at each level while at most `bound` symbols are left. -/
def Climbs (bound : Nat) (input : Input) (nested : ExprLevel → Parse Expr) : Prop :=
  ∀ level state, state.All Expr.Levelled bound input →
    Ends (nested level) input state fun expr after =>
      after.All Expr.Levelled bound input ∧ level.floor ≤ expr.level ∧
        level.Closes input.sentence after.position

/-- An operator expression that is complete so far: the operator that comes next, whichever it
is, may stand behind it. -/
structure Climbed (least bound : Nat) (input : Input) (expr : Expr) (state : ParseState) :
    Prop where
  all : state.All Expr.Levelled (bound + 1) input
  floor : min least 12 ≤ expr.level
  takes : ∀ op, input.sentence.infixAt? state.position = some op → expr.Takes op

theorem Climbs.keepsWith (h : Climbs bound input nested) (level : ExprLevel) :
    KeepsWith Expr.Levelled bound input (level.floor ≤ ·.level) (nested level) :=
  fun state hstate => (h level state hstate).imp fun _ _ hafter => ⟨hafter.1, hafter.2.1⟩

variable {state : ParseState}

/-- An operator expression that is complete: no operator of its level comes next. -/
structure Complete (least bound : Nat) (input : Input) (expr : Expr) (state : ParseState) :
    Prop where
  all : state.All Expr.Levelled (bound + 1) input
  floor : min least 12 ≤ expr.level
  closes : (ExprLevel.binary least).Closes input.sentence state.position

def Steps (least bound : Nat) (input : Input) (left : Expr) (before : Nat) :
    Option Expr → ParseState → Prop
  | none, after => Complete least bound input left after
  | some grown, after => Climbed least bound input grown after ∧ before < after.position

theorem grown_climbs {least start before : Nat} {left : Expr} {make : ExprInfo → Expr}
    (hstate : state.All Expr.Levelled bound input) (hforward : before < state.position)
    (hmake : ∀ info, (make info).Levelled) (hfloor : ∀ info, min least 12 ≤ (make info).level)
    (htakes : ∀ info op, input.sentence.infixAt? state.position = some op → (make info).Takes op) :
    Ends (complete start make >>= fun grown => pure (some grown)) input state
      (Steps least bound input left before) := by
  refine (complete_all hstate hmake).bind ?_
  rintro _ after ⟨hafter, hsame, info, rfl⟩
  refine .pure ⟨⟨hafter.weaken, hfloor info, fun op hop => htakes info op ?_⟩, ?_⟩
  · rwa [← hsame]
  · rwa [hsame]

theorem typeTest_climbs {least start before : Nat} {left : Expr}
    {make : ExprInfo → Expr → TypeSyntax → Expr} (hstate : state.All Expr.Levelled bound input)
    (hforward : before < state.position) (hleft : left.Takes .isTest) (hleast : ¬8 < least)
    (hmake : ∀ info left type, (make info left type).Levelled = (8 ≤ left.level))
    (htest : ∀ info left type, (make info left type).isTypeTest = true) :
    Ends (type >>= fun type => complete start (make · left type) >>= fun grown =>
      pure (some grown)) input state (Steps least bound input left before) := by
  have hlevel : 8 ≤ left.level := by
    rcases hleft with htest | hlevel
    · exact Nat.le_of_eq (Expr.level_of_isTypeTest htest).symm
    · exact hlevel
  refine ((Keeps.type state hstate).and (type_gives state)).bind ?_
  rintro type after ⟨hafter, hbuilds⟩
  refine grown_climbs hafter (Nat.lt_of_lt_of_le hforward hbuilds.forward)
    (fun info => by rwa [hmake]) (fun info => ?_) fun info _ _ => .inl (htest info left type)
  rw [Expr.level_of_isTypeTest (htest info left type)]
  omega

theorem infixStep?_climbs (hnested : Climbs bound input nested) (hbuilds : GivesExpr nested input)
    {start least : Nat} {left : Expr} (h : Climbed least bound input left state) :
    Ends (infixStep? nested start least left) input state
      (Steps least bound input left state.position) := by
  unfold infixStep?
  refine .ask fun op? hop => ?_
  cases op? with
  | none => exact .pure ⟨h.all, h.floor, fun next hnext => by rw [hop] at hnext; cases hnext⟩
  | some op =>
      refine .ite (fun hloose => .pure ⟨h.all, h.floor, fun next hnext => ?_⟩) fun htight => ?_
      · rw [hop] at hnext
        cases hnext
        exact hloose
      have hleft := h.takes op hop
      refine (moveTo_behind h.all hop).bind fun _ after₁ ⟨hmoved, hforward⟩ => ?_
      cases op with
      | isTest =>
          exact typeTest_climbs hmoved hforward hleft htight (fun _ _ _ => rfl) fun _ _ _ => rfl
      | asTest =>
          exact typeTest_climbs hmoved hforward hleft htight (fun _ _ _ => rfl) fun _ _ _ => rfl
      | binary op =>
          refine ((hnested (.binary op.rightLevel) after₁ hmoved).and
            (hbuilds (.binary op.rightLevel) after₁)).bind ?_
          rintro right after₂ ⟨⟨hright, hfloor, hcloses⟩, hbuilt⟩
          have hlevel : op.rightLevel ≤ right.level := by
            have hle := op.rightLevel_le
            simp only [ExprLevel.floor] at hfloor
            omega
          refine grown_climbs hright (Nat.lt_of_lt_of_le hforward hbuilt.forward)
            (fun info => ⟨hleft, hlevel⟩) (fun info => ?_) fun info next hnext => .inr ?_
          · simp only [InfixOp.precedence] at htight
            simp only [Expr.level]
            omega
          · exact InfixOp.leftLevel_le_iff.mpr (hcloses next hnext)

theorem binary_climbs (hinput : input.sentence.Unbroken) (hnested : Climbs bound input nested)
    (hbuilds : GivesExpr nested input) (least : Nat)
    (hstate : state.All Expr.Levelled (bound + 1) input) :
    Ends (binary nested least) input state (Complete least bound input) := by
  unfold binary
  refine .position ((unary_levelled hinput hnested.keepsWith state hstate).bind ?_)
  rintro first after ⟨hafter, hlevel⟩
  refine grow_done (Climbed least bound input) (fun left before hleft => ?_)
    (fun left before hleft hover => ?_)
    ⟨hafter, by omega, fun op _ => .of_level (Nat.le_of_succ_le hlevel) op⟩
  · refine (infixStep?_climbs hnested hbuilds hleft).imp fun grown? last hlast => ?_
    cases grown? <;> exact hlast
  · refine ⟨hleft.all, hleft.floor, fun op hop => ?_⟩
    exact absurd (Sentence.lt_size_of_infixAt? hop) (Nat.not_lt.mpr hover)

/-! ## Conditionals and assignments -/

theorem conditional_climbs (hinput : input.sentence.Unbroken) (hnested : Climbs bound input nested)
    (hbuilds : GivesExpr nested input) (hstate : state.All Expr.Levelled (bound + 1) input) :
    Ends (conditional nested) input state fun expr after =>
      after.All Expr.Levelled (bound + 1) input ∧
        (1 ≤ expr.level ∨ ExprLevel.full.Closes input.sentence after.position) := by
  unfold conditional
  refine .position
    ((binary_climbs hinput hnested hbuilds 1 hstate).bind fun condition after₁ h => ?_)
  have hlevel : 1 ≤ condition.level := h.floor
  refine (eat_ends (by decide)).bind ?_
  rintro question? after₂ (⟨hyes, rfl, rfl⟩ | ⟨hno, rfl, rfl⟩)
  · have hlt := Sentence.lt_size_of_kindAt (by rw [hyes]; decide)
    have hbehind := h.all.behind hlt (Nat.lt_succ_self _)
    refine (hnested .full _ hbehind).bind fun whenTrue after₃ htrue => ?_
    refine (Keeps.expect .colon after₃ htrue.1).bind fun _ after₄ hcolon => ?_
    refine (hnested .full after₄ hcolon).bind fun whenFalse after₅ hfalse => ?_
    have hmake : ∀ info, (Expr.conditional info condition whenTrue whenFalse).Levelled :=
      fun _ => hlevel
    refine (complete_all hfalse.1 hmake).imp ?_
    rintro _ after ⟨hafter, hsame, -⟩
    exact ⟨hafter.weaken, .inr (by rw [hsame]; exact hfalse.2.2)⟩
  · exact .pure ⟨h.all, .inl hlevel⟩

/-- Behind the branches of a conditional no assignment goes on, so a target is no conditional. -/
theorem assignment_climbs (hinput : input.sentence.Unbroken) (hnested : Climbs bound input nested)
    (hbuilds : GivesExpr nested input) (hstate : state.All Expr.Levelled (bound + 1) input) :
    Ends (assignment nested) input state fun _ after =>
      after.All Expr.Levelled (bound + 1) input ∧
        ExprLevel.full.Closes input.sentence after.position := by
  unfold assignment
  refine .position ((conditional_climbs hinput hnested hbuilds hstate).bind ?_)
  rintro target after₁ ⟨htarget, hlevel⟩
  refine .kind fun kind hkind => ?_
  split
  · rename_i hnone
    exact .pure ⟨htarget, by rw [ExprLevel.Closes, hkind]; exact hnone⟩
  · rename_i op hsome
    have hlevel : 1 ≤ target.level := by
      refine hlevel.resolve_right fun hcloses => ?_
      rw [ExprLevel.Closes, hkind, hsome] at hcloses
      cases hcloses
    refine (advance_all hinput htarget).bind fun _ after₂ hop => ?_
    refine (hnested .full after₂ hop).bind fun value after₃ hvalue => ?_
    have hmake : ∀ info, (Expr.assign info op target value).Levelled := fun _ => hlevel
    refine (complete_all hvalue.1 hmake).imp ?_
    rintro _ after ⟨hafter, hsame, -⟩
    exact ⟨hafter.weaken, by rw [hsame]; exact hvalue.2.2⟩

theorem exprStep_climbs (hinput : input.sentence.Unbroken) (hnested : Climbs bound input nested)
    (hbuilds : GivesExpr nested input) : Climbs (bound + 1) input (exprStep nested) := by
  intro level state hstate
  cases level with
  | full =>
      exact (assignment_climbs hinput hnested hbuilds hstate).imp
        fun _ _ h => ⟨h.1, Nat.zero_le _, h.2⟩
  | binary least =>
      exact (binary_climbs hinput hnested hbuilds least hstate).imp
        fun _ _ h => ⟨h.all, h.floor, h.closes⟩
  | unary =>
      exact (unary_levelled hinput hnested.keepsWith state hstate).imp
        fun _ _ h => ⟨h.1, h.2, trivial⟩
  | initializer =>
      have hinitializer : KeepsWith Expr.Levelled (bound + 1) input (13 ≤ ·.level)
          (arrayInitializer nested) :=
        .arrayInitializer (fun level => (hnested.keepsWith level).keeps) hinput
          fun _ => Expr.levelled_of_isPlain
      exact (hinitializer state hstate).imp fun _ _ h => ⟨h.1, Nat.zero_le _, trivial⟩

theorem exprWithin_climbs (hinput : input.sentence.Unbroken) (n : Nat) :
    Climbs n input (exprWithin n) := by
  induction n with
  | zero =>
      intro level state hstate
      have hmissing : KeepsWith Expr.Levelled 0 input (13 ≤ ·.level) missingExpr :=
        .missingExpr fun _ => Expr.levelled_of_isPlain
      refine (hmissing state hstate).imp ?_
      rintro expr after ⟨hafter, hlevel⟩
      have hend : input.sentence.kindAt after.position = .eof :=
        Sentence.kindAt_eq_eof (Nat.le_of_sub_eq_zero (Nat.le_zero.mp hafter.left))
      exact ⟨hafter, Nat.le_trans level.floor_le hlevel, level.closes_of_eof hend⟩
  | succ n ih => exact exprStep_climbs hinput ih (exprWithin_builds n)

theorem exprAt_levelled (hinput : input.sentence.Unbroken) (level : ExprLevel) :
    Keeps Expr.Levelled bound input (exprAt level) :=
  .of_within fun n => ((exprWithin_climbs hinput n).keepsWith level).keeps

end Parse

namespace SyntaxTree

/-- In every tree, however broken the text is, every operand is as tight as its operator
demands. -/
theorem ofTokens_levelled (source : String) (tokens : TokenList) (lexical : List Diagnostic)
    (version : LanguageVersion) :
    ∀ expr ∈ (ofTokens source tokens lexical version).exprs.toList, expr.Levelled := by
  rw [ofTokens_exprs]
  generalize closeTokens source tokens = tokens
  have hkeeps : Parse.Keeps Expr.Levelled (Sentence.ofTokens tokens).size
      (.ofSentence (.ofTokens tokens)) Parse.compilationUnit :=
    .compilationUnit fun level => Parse.exprAt_levelled (Sentence.unbroken_ofTokens tokens) level
  exact (hkeeps .start ⟨Nat.le_refl _, nofun⟩).good

theorem ofTokens_levelled_missing :
    ∃ expr ∈ (ofTokens "class C { int f = 1 + 2 * ; }"
        (lex "class C { int f = 1 + 2 * ; }").tokens [] .v7_1).exprs.toList,
      expr.level = 10 ∧ expr.Levelled := by
  have hsum : ∃ expr ∈ (ofTokens "class C { int f = 1 + 2 * ; }"
      (lex "class C { int f = 1 + 2 * ; }").tokens [] .v7_1).exprs.toList, expr.level = 10 := by
    decide +kernel
  obtain ⟨expr, hmem, hlevel⟩ := hsum
  exact ⟨expr, hmem, hlevel, ofTokens_levelled _ _ _ _ expr hmem⟩

end SyntaxTree
end TolerantSyntax
