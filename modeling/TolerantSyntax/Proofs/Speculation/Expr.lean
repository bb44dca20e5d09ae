import TolerantSyntax.Proofs.Reads.Expr
import TolerantSyntax.Proofs.Speculation.Cast
import TolerantSyntax.Proofs.Speculation.Scripted

/-!
# Scripts of types and expressions

Types and expressions do not look at the context.  Two of the three places where something is
tried are here: a cast, and type arguments behind a name.  An operator of two symbols is taken
by one move, which stays in front of the end because both symbols are there.
-/

namespace TolerantSyntax

namespace Sentence

def behindOperator (sentence : Sentence) (index : Nat) : Nat :=
  index + ((sentence.infixAt? index).map InfixOp.width).getD 0

def behindShift (sentence : Sentence) (index : Nat) : Nat :=
  if sentence.shiftAt index then index + 2 else index

theorem shiftAt_left {sentence : Sentence} {index : Nat} (h : sentence.shiftAt index = true) :
    2 ≤ sentence.left index := by
  obtain ⟨⟨_, hsecond⟩, -⟩ : (sentence.kindAt index = .gt ∧
      sentence.kindAt (index + 1) = .gt) ∧ sentence.joinedAt (index + 1) = true := by
    simpa [shiftAt] using h
  have hsize : index + 1 < sentence.size := lt_size_of_kindAt (by rw [hsecond]; decide)
  unfold left
  omega

theorem width_le_left {sentence : Sentence} {index : Nat} {op : InfixOp}
    (h : sentence.infixAt? index = some op) : op.width ≤ sentence.left index := by
  unfold infixAt? at h
  split at h
  · rename_i hshift
    cases h
    exact shiftAt_left hshift
  · have hone : sentence.kindAt index ≠ .eof ∧ op.width = 1 := by
      split at h
      · rename_i hkind
        cases h
        exact ⟨by rw [hkind]; decide, rfl⟩
      · rename_i hkind
        cases h
        exact ⟨by rw [hkind]; decide, rfl⟩
      · obtain ⟨binary, hbinary, rfl⟩ := Option.map_eq_some_iff.mp h
        obtain ⟨-, hwidth, heof⟩ := BinaryOp.symbols_of_ofKind? hbinary
        exact ⟨heof, hwidth⟩
    have hsize := lt_size_of_kindAt hone.1
    rw [hone.2]
    unfold left
    omega

theorem behindOperator_skips : Skips behindOperator := by
  intro sentence index
  refine ⟨Nat.le_add_right .., ?_⟩
  unfold behindOperator
  cases hop : sentence.infixAt? index with
  | none => exact Nat.le_add_right ..
  | some op => exact Nat.add_le_add_left (width_le_left hop) index

theorem behindShift_skips : Skips behindShift := by
  intro sentence index
  unfold behindShift
  split
  · rename_i hshift
    exact ⟨Nat.le_add_right .., Nat.add_le_add_left (shiftAt_left hshift) index⟩
  · exact ⟨Nat.le_refl _, Nat.le_add_right ..⟩

end Sentence

namespace Parse

def operatorRest (nested : ExprLevel → Parse Expr) (start : Nat) (left : Expr) :
    InfixOp → Parse (Option Expr)
  | .isTest => do
      let type ← type
      return some (← complete start fun info => .isType info left type)
  | .asTest => do
      let type ← type
      return some (← complete start fun info => .asType info left type)
  | .binary op => do
      let right ← nested (.binary op.rightLevel)
      return some (← complete start fun info => .binary info op left right)

namespace Scripted

theorem refQualifier? : Scripted fun _ => refQualifier? := by
  refine (ask _).bind fun _ => .ite ?_ ((ask _).bind fun _ => .ite ?_ (.pure _))
  · exact (noteHere _).bind fun _ => advance.bind fun _ => advance.bind fun _ => .pure _
  · exact (noteHere _).bind fun _ => advance.bind fun _ => .pure _

section Types

variable {nested : Parse TypeSyntax} (hnested : Scripted fun _ => nested)
include hnested

theorem elementType (named : Bool) : Scripted fun _ => elementType nested named := by
  have hbehind : ∀ start readonly? here, Scripted fun _ => (do
      let skippedRef? ← Parse.eat .refKw
      if skippedRef?.isSome then Parse.note (.skippedRef here)
      let type ← nested
      let name? ← if named then Parse.eat .identifier else Pure.pure none
      return ElementType.mk (← rangeFrom start) readonly? skippedRef? type name?) := by
    intro start readonly? here
    refine (eat _).bind fun skippedRef? => ?_
    have hname : ∀ type, Scripted fun _ => (do
        let name? ← if named then Parse.eat .identifier else Pure.pure none
        return ElementType.mk (← rangeFrom start) readonly? skippedRef? type name?) := fun _ =>
      .ite ((eat _).bind fun _ => (ask _).bind fun _ => .pure _)
        ((pure _).bind fun _ => (ask _).bind fun _ => .pure _)
    exact .ite ((note _).bind fun _ => hnested.bind hname) (hnested.bind hname)
  refine (ask _).bind fun start => (ask _).bind fun _ => .ite ?_ ?_
  · exact (eat _).bind fun _ => (ask _).bind fun _ => hbehind _ _ _
  · exact (pure _).bind fun _ => (ask _).bind fun _ => hbehind _ _ _

theorem typeArguments : Scripted fun _ => typeArguments nested :=
  advance.bind fun _ => (separated (elementType hnested false)).bind fun _ =>
    (expect _).bind fun _ => .pure _

theorem tupleType : Scripted fun _ => tupleType nested := by
  refine (ask _).bind fun start => (noteHere _).bind fun _ => advance.bind fun _ =>
    (separated (elementType hnested true)).bind fun elements => (expect _).bind fun _ => ?_
  exact .ite ((note _).bind fun _ => (ask _).bind fun _ => .pure _)
    ((ask _).bind fun _ => .pure _)

theorem simpleName : Scripted fun _ => simpleName nested := by
  refine (ask _).bind fun _ => advance.bind fun _ => (ask _).bind fun _ => .ite ?_ ?_
  · exact (typeArguments hnested).bind fun _ => (ask _).bind fun _ => .pure _
  · exact (ask _).bind fun _ => .pure _

theorem segment? (start : Nat) (left : TypeSyntax) :
    Scripted fun _ => segment? nested start left := by
  refine (ask _).bind fun _ => .ite ?_ (.pure _)
  exact advance.bind fun _ => (simpleName hnested).bind fun _ => (ask _).bind fun _ => .pure _

theorem qualifiedName : Scripted fun _ => qualifiedName nested :=
  (ask _).bind fun start => (simpleName hnested).bind fun _ =>
    grow (fun left => segment? hnested start left) _

omit hnested

theorem arrayRank : Scripted fun _ => arrayRank :=
  advance.bind fun _ => (many (eat _)).bind fun _ => (expect _).bind fun _ => .pure _

theorem arrayRank? : Scripted fun _ => arrayRank? := whenever (ask _) arrayRank

theorem typeSuffix? (start : Nat) (type : TypeSyntax) :
    Scripted fun _ => typeSuffix? start type := by
  unfold Parse.typeSuffix?
  refine (ask _).bind fun kind => ?_
  split
  · exact .ite (.pure _) (advance.bind fun _ => (ask _).bind fun _ => .pure _)
  · exact advance.bind fun _ => (ask _).bind fun _ => .pure _
  · refine (many arrayRank?).bind fun ranks => ?_
    cases ranks with
    | nil => exact .pure _
    | cons first rest => exact (ask _).bind fun _ => .pure _
  · exact .pure _

theorem missingType : Scripted fun _ => missingType :=
  (noteHere _).bind fun _ => (ask _).bind fun _ => .pure _

include hnested in
theorem typeStep : Scripted fun _ => typeStep nested := by
  unfold Parse.typeStep
  refine (ask _).bind fun start => (ask _).bind fun kind => ?_
  have hsuffixes : ∀ type, Scripted fun _ => Parse.grow (Parse.typeSuffix? start) type :=
    grow fun type => typeSuffix? start type
  split
  · exact (qualifiedName hnested).bind hsuffixes
  · exact (tupleType hnested).bind hsuffixes
  · exact .ite (advance.bind fun _ => (ask _).bind fun _ => hsuffixes _) missingType

theorem typeWithin (n : Nat) : Scripted fun _ => typeWithin n := by
  induction n with
  | zero => exact missingType
  | succ n ih => exact typeStep ih

theorem type : Scripted fun _ => type := (ask _).bind fun n => typeWithin n

theorem qualifiedType (qualifier? : Option RefQualifier) :
    Scripted fun _ => qualifiedType qualifier? := by
  cases qualifier? with
  | none => exact type
  | some qualifier => exact type.bind fun _ => (ask _).bind fun _ => .pure _

end Types

theorem confirmedArguments : Scripted fun _ => confirmedArguments :=
  (typeArguments type).bind fun _ => (ask _).bind fun _ => .ite (.pure _) (.pure _)

theorem typeArguments? : Scripted fun _ => typeArguments? :=
  (ask _).bind fun _ => .ite (attempt confirmedArguments) (.pure _)

/-! ## Primary expressions -/

theorem single (make : ExprInfo → Nat → Expr) : Scripted fun _ => single make :=
  (ask _).bind fun _ => advance.bind fun _ => complete _ _

theorem missingExpr : Scripted fun _ => missingExpr :=
  (noteHere _).bind fun _ => (ask _).bind fun _ => complete _ _

theorem name : Scripted fun _ => name := by
  refine (ask _).bind fun _ => advance.bind fun _ => typeArguments?.bind fun args? => ?_
  cases args? <;> exact complete _ _

theorem typeOf : Scripted fun _ => typeOf :=
  (ask _).bind fun _ => advance.bind fun _ => (expect _).bind fun _ => type.bind fun _ =>
    (expect _).bind fun _ => complete _ _

theorem defaultValue : Scripted fun _ => defaultValue := by
  refine (ask _).bind fun _ => advance.bind fun _ => (eat _).bind fun opening? => ?_
  cases opening? with
  | none => exact complete _ _
  | some opening => exact type.bind fun _ => (expect _).bind fun _ => complete _ _

section Expr

variable {nested : ExprLevel → Parse Expr} (hnested : ∀ level, Scripted fun _ => nested level)
include hnested

theorem argument : Scripted fun _ => argument nested :=
  (whenever (ask _) advance).bind fun _ => (hnested .full).bind fun _ => .pure _

theorem argumentList (closing : TokenKind) : Scripted fun _ => argumentList nested closing := by
  refine advance.bind fun opening => (ask _).bind fun _ => ?_
  have hrest : ∀ args, Scripted fun _ => (do
      let closing? ← Parse.expect closing
      return ArgumentList.mk opening args closing?) := fun _ => (expect _).bind fun _ => .pure _
  exact .ite (hrest _) ((separated (argument hnested)).bind hrest)

theorem initializerElement : Scripted fun _ => initializerElement nested :=
  (ask _).bind fun _ => hnested _

theorem arrayInitializer : Scripted fun _ => arrayInitializer nested :=
  (ask _).bind fun _ => advance.bind fun _ =>
    (listed (initializerElement hnested) _).bind fun _ => (expect _).bind fun _ => complete _ _

theorem parenthesized : Scripted fun _ => parenthesized nested := by
  refine (ask _).bind fun _ => advance.bind fun _ => (hnested .full).bind fun _ =>
    (eat _).bind fun comma? => ?_
  cases comma? with
  | none => exact (expect _).bind fun _ => complete _ _
  | some comma =>
      exact (note _).bind fun _ => (separated (hnested .full)).bind fun _ =>
        (expect _).bind fun _ => complete _ _

theorem sizedRank : Scripted fun _ => sizedRank nested := by
  refine (ask _).bind fun _ => .ite (arrayRank.bind fun _ => .pure _) ?_
  exact advance.bind fun _ => (separated (hnested .full)).bind fun _ =>
    (expect _).bind fun _ => .pure _

theorem creation : Scripted fun _ => creation nested := by
  have hitems : Scripted fun _ => Parse.whenever (Parse.check .lBrace) (nested .initializer) :=
    whenever (ask _) (hnested .initializer)
  unfold Parse.creation
  refine (ask _).bind fun _ => advance.bind fun _ => type.bind fun type =>
    (ask _).bind fun _ => .ite ?_ ?_
  · exact (many (whenever (ask _) (sizedRank hnested))).bind fun _ => hitems.bind fun _ =>
      complete _ _
  · split
    · exact hitems.bind fun _ => .ite ((noteHere _).bind fun _ => complete _ _) (complete _ _)
    · exact (whenever (ask _) (argumentList hnested _)).bind fun _ => hitems.bind fun _ =>
        .ite ((noteHere _).bind fun _ => complete _ _) (complete _ _)

theorem throwExpr : Scripted fun _ => throwExpr nested :=
  (ask _).bind fun _ => (noteHere _).bind fun _ => advance.bind fun _ =>
    (hnested .full).bind fun _ => complete _ _

theorem primary : Scripted fun _ => primary nested := by
  unfold Parse.primary
  refine (ask _).bind fun kind => ?_
  split
  · exact name
  · exact single _
  · exact single _
  · exact parenthesized hnested
  · exact creation hnested
  · exact defaultValue
  · exact typeOf
  · exact throwExpr hnested
  · exact .ite (single _) (.ite (single _) missingExpr)

/-! ## Suffixes and operators -/

theorem exprSuffix? (start : Nat) (expr : Expr) :
    Scripted fun _ => exprSuffix? nested start expr := by
  unfold Parse.exprSuffix?
  refine (ask _).bind fun kind => ?_
  split
  · refine advance.bind fun dot => (expect _).bind fun name? => ?_
    have hrest : ∀ args?, Scripted fun _ => (do
        return some (← Parse.complete start fun info =>
          .memberAccess info expr dot name? args?)) :=
      fun _ => (complete _ _).bind fun _ => .pure _
    exact .ite (typeArguments?.bind hrest) (hrest _)
  · exact (argumentList hnested _).bind fun _ => (complete _ _).bind fun _ => .pure _
  · exact (argumentList hnested _).bind fun _ => (complete _ _).bind fun _ => .pure _
  · split
    · exact advance.bind fun _ => (complete _ _).bind fun _ => .pure _
    · exact .pure _

theorem suffixed : Scripted fun _ => suffixed nested :=
  (ask _).bind fun start => (primary hnested).bind fun _ =>
    grow (fun expr => exprSuffix? hnested start expr) _

omit hnested in
theorem mayBeCast : Scripted fun _ => mayBeCast :=
  ⟨.bind (.scan 1) fun stop? => .ask fun sentence => sentence.castAt fun _ => stop?, fun _ => rfl⟩

omit hnested in
theorem castHead : Scripted fun _ => castHead := by
  refine advance.bind fun _ => type.bind fun type =>
    .ite (.pure _) ((eat _).bind fun closing? => ?_)
  cases closing? with
  | none => exact .pure _
  | some closing => exact (ask _).bind fun _ => .ite (.pure _) (.pure _)

theorem castExpr : Scripted fun _ => castExpr nested := by
  refine (ask _).bind fun start => castHead.bind fun type? => ?_
  cases type? with
  | none => exact .pure _
  | some type => exact ((hnested .unary).bind fun _ => complete _ _).map some

theorem castExpr? : Scripted fun _ => castExpr? nested :=
  mayBeCast.bind fun _ => .ite (attempt (castExpr hnested)) (.pure _)

theorem castOrSuffixed : Scripted fun _ => castOrSuffixed nested := by
  refine (castExpr? hnested).bind fun cast? => ?_
  cases cast? with
  | none => exact suffixed hnested
  | some cast => exact .pure _

theorem unary : Scripted fun _ => unary nested := by
  rw [unary_eq_prefixed]
  unfold prefixed
  refine (ask _).bind fun start => (ask _).bind fun kind => ?_
  split
  · exact (noteHere _).bind fun _ => advance.bind fun _ => (hnested .unary).bind fun _ =>
      complete _ _
  · exact castOrSuffixed hnested
  · split
    · exact advance.bind fun _ => (hnested .unary).bind fun _ => complete _ _
    · exact suffixed hnested

theorem infixStep? (start least : Nat) (left : Expr) :
    Scripted fun _ => infixStep? nested start least left := by
  have hrest : ∀ op, Scripted fun _ => operatorRest nested start left op := by
    intro op
    cases op with
    | isTest => exact type.bind fun _ => (complete _ _).bind fun _ => .pure _
    | asTest => exact type.bind fun _ => (complete _ _).bind fun _ => .pure _
    | binary op => exact (hnested _).bind fun _ => (complete _ _).bind fun _ => .pure _
  have hmoved : ∀ op? : Option InfixOp, Scripted fun _ => op?.elim (Pure.pure none) (fun op =>
      if op.precedence < least then Pure.pure none
      else do
        Parse.moveTo Sentence.behindOperator
        operatorRest nested start left op) := by
    intro op?
    cases op? with
    | none => exact .pure _
    | some op =>
        exact .ite (.pure _) ((moveTo Sentence.behindOperator_skips).bind fun _ => hrest op)
  refine asked hmoved fun _ input state => ?_
  cases hop : input.sentence.infixAt? state.position with
  | none => rfl
  | some op =>
      have hplace : input.sentence.behindOperator state.position = state.position + op.width := by
        simp [Sentence.behindOperator, hop]
      dsimp only [Option.elim]
      split
      · rfl
      · change operatorRest nested start left op input _ = operatorRest nested start left op input _
        rw [hplace]

theorem binary (least : Nat) : Scripted fun _ => binary nested least :=
  (ask _).bind fun start => (unary hnested).bind fun _ =>
    grow (fun left => infixStep? hnested start least left) _

theorem conditional : Scripted fun _ => conditional nested := by
  refine (ask _).bind fun _ => (binary hnested 1).bind fun _ => (eat _).bind fun question? => ?_
  cases question? with
  | none => exact .pure _
  | some question =>
      exact (hnested .full).bind fun _ => (expect _).bind fun _ => (hnested .full).bind fun _ =>
        complete _ _

theorem assignment : Scripted fun _ => assignment nested := by
  unfold Parse.assignment
  refine (ask _).bind fun _ => (conditional hnested).bind fun _ => (ask _).bind fun kind => ?_
  split
  · exact .pure _
  · exact advance.bind fun _ => (hnested .full).bind fun _ => complete _ _

theorem exprStep (level : ExprLevel) : Scripted fun _ => exprStep nested level := by
  cases level with
  | full => exact assignment hnested
  | binary least => exact binary hnested least
  | unary => exact unary hnested
  | initializer => exact arrayInitializer hnested

end Expr

theorem exprWithin (n : Nat) (level : ExprLevel) : Scripted fun _ => exprWithin n level := by
  induction n generalizing level with
  | zero => exact missingExpr
  | succ n ih => exact exprStep ih level

theorem exprAt (level : ExprLevel) : Scripted fun _ => exprAt level :=
  (ask _).bind fun n => exprWithin n level

end Scripted
end Parse
end TolerantSyntax
