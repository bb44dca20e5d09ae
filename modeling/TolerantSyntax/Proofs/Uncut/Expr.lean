import TolerantSyntax.Proofs.TypeEnd.Agreement
import TolerantSyntax.Proofs.Uncut.Confined

/-!
# Types and expressions stay in front of the end

Only two productions move or look further than the current symbol allows by itself.  An operator
of two symbols is taken by one move, and a cast is decided by scanning over a type.  Where the scan
ends is where the type ends, so it is the same for both sentences.
-/

namespace TolerantSyntax.Parse

variable {wide narrow : Sentence} {state : ParseState}

namespace Confined

theorem refQualifier? : Confined refQualifier? := by
  have hreadonly : Sentence.Local fun sentence index =>
      sentence.kindAt index == .readonlyKw && sentence.kindAt (index + 1) == .refKw :=
    .andNext (· == .readonlyKw) (· == .refKw) rfl
  refine (ask hreadonly).bind fun _ => .ite ?_ ((check _).bind fun _ => .ite ?_ (.pure _))
  · exact (noteHere _).bind fun _ => advance.bind fun _ => advance.bind fun _ => .pure _
  · exact (noteHere _).bind fun _ => advance.bind fun _ => .pure _

section Types

variable {nested : Parse TypeSyntax} (hscript : Scripted fun _ => nested)
  (hnested : Confined nested)
include hnested

theorem elementType (named : Bool) : Confined (elementType nested named) := by
  have hbehind : ∀ start readonly? here, Confined (do
      let skippedRef? ← Parse.eat .refKw
      if skippedRef?.isSome then Parse.note (.skippedRef here)
      let type ← nested
      let name? ← if named then Parse.eat .identifier else Pure.pure none
      return ElementType.mk (← Parse.rangeFrom start) readonly? skippedRef? type name?) := by
    intro start readonly? here
    refine (eat _).bind fun skippedRef? => ?_
    have hname : ∀ type, Confined (do
        let name? ← if named then Parse.eat .identifier else Pure.pure none
        return ElementType.mk (← Parse.rangeFrom start) readonly? skippedRef? type name?) :=
      fun _ => .ite ((eat _).bind fun _ => (rangeFrom _).bind fun _ => .pure _)
        ((pure _).bind fun _ => (rangeFrom _).bind fun _ => .pure _)
    exact .ite ((note _).bind fun _ => hnested.bind hname) (hnested.bind hname)
  refine position.bind fun start => (ask .qualifierAt).bind fun _ => .ite ?_ ?_
  · exact (eat _).bind fun _ => position.bind fun _ => hbehind _ _ _
  · exact (pure _).bind fun _ => position.bind fun _ => hbehind _ _ _

include hscript

theorem elements (named : Bool) : Confined (Parse.separated (Parse.elementType nested named)) :=
  separated (elementType hnested named) fun _ => (Scripted.elementType hscript named).onward .none

theorem typeArguments : Confined (typeArguments nested) :=
  advance.bind fun _ => (elements hscript hnested false).bind fun _ =>
    (expect _).bind fun _ => .pure _

theorem tupleType : Confined (tupleType nested) := by
  refine position.bind fun start => (noteHere _).bind fun _ => advance.bind fun _ =>
    (elements hscript hnested true).bind fun elements => (expect _).bind fun _ => ?_
  exact .ite ((note _).bind fun _ => (rangeFrom _).bind fun _ => .pure _)
    ((rangeFrom _).bind fun _ => .pure _)

theorem simpleName : Confined (simpleName nested) := by
  refine position.bind fun _ => advance.bind fun _ => (check _).bind fun _ => .ite ?_ ?_
  · exact (typeArguments hscript hnested).bind fun _ => (rangeFrom _).bind fun _ => .pure _
  · exact (rangeFrom _).bind fun _ => .pure _

theorem segment? (start : Nat) (left : TypeSyntax) : Confined (segment? nested start left) := by
  have hsegment : Sentence.Local fun sentence index =>
      sentence.kindAt index == .dot && sentence.kindAt (index + 1) == .identifier :=
    .andNext (· == .dot) (· == .identifier) rfl
  refine (ask hsegment).bind fun _ => .ite ?_ (.pure _)
  exact advance.bind fun _ => (simpleName hscript hnested).bind fun _ =>
    (rangeFrom _).bind fun _ => .pure _

theorem qualifiedName : Confined (qualifiedName nested) :=
  position.bind fun start => (simpleName hscript hnested).bind fun first =>
    grow (segment? hscript hnested start) (fun _ left => .segment? hscript start left) first

omit hscript hnested

theorem arrayRank : Confined arrayRank :=
  advance.bind fun _ => (many (eat _) fun _ => .eat (by decide)).bind fun _ =>
    (expect _).bind fun _ => .pure _

theorem arrayRank? : Confined arrayRank? := whenever (ask .rankAt) arrayRank

theorem typeSuffix? (start : Nat) (type : TypeSyntax) : Confined (typeSuffix? start type) := by
  unfold Parse.typeSuffix?
  refine kind.bind fun kind => ?_
  split
  · exact .ite (.pure _) (advance.bind fun _ => (rangeFrom _).bind fun _ => .pure _)
  · exact advance.bind fun _ => (rangeFrom _).bind fun _ => .pure _
  · refine (many arrayRank? fun _ => .arrayRank?).bind fun ranks => ?_
    cases ranks with
    | nil => exact .pure _
    | cons first rest => exact (rangeFrom _).bind fun _ => .pure _
  · exact .pure _

theorem missingType : Confined missingType :=
  (noteHere _).bind fun _ => position.bind fun _ => .pure _

include hscript hnested in
theorem typeStep : Confined (typeStep nested) := by
  unfold Parse.typeStep
  refine position.bind fun start => kind.bind fun kind => ?_
  have hsuffixes : ∀ type, Confined (Parse.grow (Parse.typeSuffix? start) type) :=
    grow (typeSuffix? start) fun _ type => .typeSuffix? start type
  split
  · exact (qualifiedName hscript hnested).bind hsuffixes
  · exact (tupleType hscript hnested).bind hsuffixes
  · exact .ite (advance.bind fun _ => (rangeFrom _).bind fun _ => hsuffixes _) missingType

theorem typeWithin (n : Nat) : Confined (typeWithin n) := by
  induction n with
  | zero => exact missingType
  | succ n ih => exact typeStep (Scripted.typeWithin n) ih

theorem type : Confined type :=
  ⟨fun h _ hle =>
    .read .types () h Recursion.types_rising trivial fun n => (typeWithin n).alike h hle⟩

theorem qualifiedType (qualifier? : Option RefQualifier) :
    Confined (qualifiedType qualifier?) := by
  cases qualifier? with
  | none => exact type
  | some qualifier => exact type.bind fun _ => (rangeFrom _).bind fun _ => .pure _

end Types

/-! ## Primary expressions -/

theorem confirmedArguments : Confined confirmedArguments :=
  (typeArguments .type type).bind fun _ => (checkAny _).bind fun _ => .ite (.pure _) (.pure _)

theorem typeArguments? : Confined typeArguments? :=
  (check _).bind fun _ => .ite (attempt confirmedArguments) (.pure _)

theorem single (make : ExprInfo → Nat → Expr) : Confined (single make) :=
  position.bind fun _ => advance.bind fun _ => complete _ _

theorem missingExpr : Confined missingExpr :=
  (noteHere _).bind fun _ => position.bind fun _ => complete _ _

theorem name : Confined name := by
  refine position.bind fun _ => advance.bind fun _ => typeArguments?.bind fun args? => ?_
  cases args? <;> exact complete _ _

theorem typeOf : Confined typeOf :=
  position.bind fun _ => advance.bind fun _ => (expect _).bind fun _ => type.bind fun _ =>
    (expect _).bind fun _ => complete _ _

theorem defaultValue : Confined defaultValue := by
  refine position.bind fun _ => advance.bind fun _ => (eat _).bind fun opening? => ?_
  cases opening? with
  | none => exact complete _ _
  | some opening => exact type.bind fun _ => (expect _).bind fun _ => complete _ _

theorem castHead : Confined castHead := by
  refine advance.bind fun _ => type.bind fun type =>
    .ite (.pure _) ((eat _).bind fun closing? => ?_)
  cases closing? with
  | none => exact .pure _
  | some closing => exact (checkAny _).bind fun _ => .ite (.pure _) (.pure _)

end Confined

section Cast

variable (h : wide.Continues narrow)
include h

theorem typeEnd?_alike {index : Nat} (hle : index ≤ narrow.size) :
    wide.typeEnd? (Input.ofSentence wide).tupleEnd index =
        narrow.typeEnd? (Input.ofSentence narrow).tupleEnd index ∧
      ∀ stop, narrow.typeEnd? (Input.ofSentence narrow).tupleEnd index = some stop →
        stop ≤ narrow.size := by
  let state : ParseState := ⟨index, [], .empty⟩
  have hwide : TypeEndsAt _ state _ _ := type_follows wide state
  have hnarrow : TypeEndsAt _ state _ _ := type_follows narrow state
  obtain ⟨hsame, hwithin⟩ := Confined.type.alike h (show state.position ≤ narrow.size from hle)
  rw [hsame] at hwide
  refine ⟨Option.ext fun stop => (hwide.some_iff stop).trans (hnarrow.some_iff stop).symm, ?_⟩
  intro stop hstop
  obtain ⟨-, hafter⟩ := (hnarrow.some_iff stop).mp hstop
  exact hafter ▸ hwithin

theorem mayBeCast_alike (hkind : narrow.kindAt state.position = .lParen) :
    ReadsAlike mayBeCast wide narrow state := by
  have hlt : state.position < narrow.size := Sentence.lt_size_of_kindAt (by simp [hkind])
  obtain ⟨hscan, hstop⟩ := typeEnd?_alike h hlt
  have hcast : wide.castAt (wide.typeEnd? (Input.ofSentence wide).tupleEnd) state.position =
      narrow.castAt (narrow.typeEnd? (Input.ofSentence narrow).tupleEnd) state.position := by
    unfold Sentence.castAt
    rw [hscan]
    cases hclosing : narrow.typeEnd? (Input.ofSentence narrow).tupleEnd (state.position + 1) with
    | none => rfl
    | some closing =>
        -- What follows is looked at only behind the parenthesis that closes.
        have hfollow := fun follow : TokenSet =>
          (Sentence.Local.andNext (· == .rParen) follow.contains rfl).same h (hstop _ hclosing)
        dsimp only at hfollow ⊢
        rw [h.kindAt_eq hlt, hfollow]
  exact ⟨congrArg (·, state) hcast, Nat.le_of_lt hlt⟩

theorem castHead?_alike (hkind : narrow.kindAt state.position = .lParen) :
    ReadsAlike castHead? wide narrow state := by
  refine (mayBeCast_alike h hkind).bind fun mayBe _ hafter => ?_
  cases mayBe with
  | true => exact (Confined.attempt Confined.castHead).alike h hafter
  | false => exact (Confined.pure none).alike h hafter

end Cast

namespace Confined

section Expr

variable {nested : ExprLevel → Parse Expr} (hscript : ∀ level, Scripted fun _ => nested level)
  (hnested : ∀ level, Confined (nested level))
include hnested

theorem argument : Confined (argument nested) :=
  (whenever (checkAny _) advance).bind fun _ => (hnested .full).bind fun _ => .pure _

theorem initializerElement : Confined (initializerElement nested) :=
  (check _).bind fun _ => hnested _

theorem throwExpr : Confined (throwExpr nested) :=
  position.bind fun _ => (noteHere _).bind fun _ => advance.bind fun _ =>
    (hnested .full).bind fun _ => complete _ _

include hscript

theorem exprs : Confined (Parse.separated (nested .full)) :=
  separated (hnested .full) fun _ => (hscript .full).onward .none

theorem argumentList (closing : TokenKind) : Confined (argumentList nested closing) := by
  have harguments : Confined (Parse.separated (Parse.argument nested)) :=
    separated (argument hnested) fun _ => (Scripted.argument hscript).onward .none
  refine advance.bind fun opening => (check _).bind fun _ => ?_
  have hrest : ∀ args, Confined (do
      let closing? ← Parse.expect closing
      return ArgumentList.mk opening args closing?) := fun _ => (expect _).bind fun _ => .pure _
  exact .ite (hrest _) (harguments.bind hrest)

theorem arrayInitializer : Confined (arrayInitializer nested) := by
  have helements : Confined (Parse.listed (Parse.initializerElement nested) .rBrace) :=
    listed (initializerElement hnested)
      (fun _ => (Scripted.initializerElement hscript).onward .none) _
  exact position.bind fun _ => advance.bind fun _ => helements.bind fun _ =>
    (expect _).bind fun _ => complete _ _

theorem parenthesized : Confined (parenthesized nested) := by
  refine position.bind fun _ => advance.bind fun _ => (hnested .full).bind fun _ =>
    (eat _).bind fun comma? => ?_
  cases comma? with
  | none => exact (expect _).bind fun _ => complete _ _
  | some comma =>
      exact (note _).bind fun _ => (exprs hscript hnested).bind fun _ =>
        (expect _).bind fun _ => complete _ _

theorem sizedRank : Confined (sizedRank nested) := by
  refine (ask .rankAt).bind fun _ => .ite (arrayRank.bind fun _ => .pure _) ?_
  exact advance.bind fun _ => (exprs hscript hnested).bind fun _ =>
    (expect _).bind fun _ => .pure _

theorem creation : Confined (creation nested) := by
  have hitems : Confined (Parse.whenever (Parse.check .lBrace) (nested .initializer)) :=
    whenever (check _) (hnested .initializer)
  have hranks : Confined (Parse.many
      (Parse.whenever (Parse.check .lBracket) (Parse.sizedRank nested))) :=
    many (whenever (check _) (sizedRank hscript hnested)) fun _ => .sizedRank? hscript
  unfold Parse.creation
  refine position.bind fun _ => advance.bind fun _ => type.bind fun type =>
    (check _).bind fun _ => .ite ?_ ?_
  · exact hranks.bind fun _ => hitems.bind fun _ => complete _ _
  · split
    · exact hitems.bind fun _ => .ite ((noteHere _).bind fun _ => complete _ _) (complete _ _)
    · exact (whenever (check _) (argumentList hscript hnested _)).bind fun _ =>
        hitems.bind fun _ => .ite ((noteHere _).bind fun _ => complete _ _) (complete _ _)

theorem primary : Confined (primary nested) := by
  unfold Parse.primary
  refine kind.bind fun kind => ?_
  split
  · exact name
  · exact single _
  · exact single _
  · exact parenthesized hscript hnested
  · exact creation hscript hnested
  · exact defaultValue
  · exact typeOf
  · exact throwExpr hnested
  · exact .ite (single _) (.ite (single _) missingExpr)

/-! ## Suffixes and operators -/

theorem exprSuffix? (start : Nat) (expr : Expr) : Confined (exprSuffix? nested start expr) := by
  unfold Parse.exprSuffix?
  refine kind.bind fun kind => ?_
  split
  · refine advance.bind fun dot => (expect _).bind fun name? => ?_
    have hrest : ∀ args?, Confined (do
        return some (← Parse.complete start fun info =>
          .memberAccess info expr dot name? args?)) :=
      fun _ => (complete _ _).bind fun _ => .pure _
    exact .ite (typeArguments?.bind hrest) (hrest _)
  · exact (argumentList hscript hnested _).bind fun _ => (complete _ _).bind fun _ => .pure _
  · exact (argumentList hscript hnested _).bind fun _ => (complete _ _).bind fun _ => .pure _
  · split
    · exact advance.bind fun _ => (complete _ _).bind fun _ => .pure _
    · exact .pure _

theorem suffixed : Confined (suffixed nested) :=
  position.bind fun start => (primary hscript hnested).bind fun first =>
    grow (exprSuffix? hscript hnested start) (fun _ expr => .exprSuffix? hscript start expr) first

theorem unary : Confined (unary nested) := by
  constructor
  intro wide narrow h state hle
  unfold Parse.unary
  refine .ask rfl fun start _ => .kind h hle fun kind hkind => ?_
  split
  · have href : Confined (do
        Parse.noteHere (.uses .refLocalsAndReturns)
        let keyword ← Parse.advance
        let operand ← nested .unary
        Parse.complete start fun info => .refExpr info keyword operand) :=
      (noteHere _).bind fun _ => advance.bind fun _ => (hnested .unary).bind fun _ => complete _ _
    exact href.alike h hle
  · refine (castHead?_alike h hkind).bind fun type? _ hafter => ?_
    cases type? with
    | none => exact (suffixed hscript hnested).alike h hafter
    | some type => exact ((hnested .unary).bind fun _ => complete _ _).alike h hafter
  · split
    · exact (advance.bind fun _ => (hnested .unary).bind fun _ => complete _ _).alike h hle
    · exact (suffixed hscript hnested).alike h hle

omit hscript in
theorem infixStep? (start least : Nat) (left : Expr) :
    Confined (infixStep? nested start least left) := by
  constructor
  intro wide narrow h state hle
  unfold Parse.infixStep?
  refine .ask (Sentence.Local.infixAt?.same h hle) fun op? hop => ?_
  cases op? with
  | none => exact (pure _).alike h hle
  | some op =>
      dsimp only
      split
      · exact (pure _).alike h hle
      · refine (ReadsAlike.moveOver hle (Sentence.width_le_left hop)).bind fun _ _ hafter => ?_
        cases op with
        | isTest | asTest =>
            exact (type.bind fun _ => (complete _ _).bind fun _ => pure _).alike h hafter
        | binary op =>
            exact ((hnested _).bind fun _ => (complete _ _).bind fun _ => pure _).alike h hafter

theorem binary (least : Nat) : Confined (binary nested least) :=
  position.bind fun start => (unary hscript hnested).bind fun first =>
    grow (infixStep? hnested start least)
      (fun _ left => .infixStep? hscript start least left) first

theorem conditional : Confined (conditional nested) := by
  refine position.bind fun _ => (binary hscript hnested 1).bind fun _ =>
    (eat _).bind fun question? => ?_
  cases question? with
  | none => exact .pure _
  | some question =>
      exact (hnested .full).bind fun _ => (expect _).bind fun _ => (hnested .full).bind fun _ =>
        complete _ _

theorem assignment : Confined (assignment nested) := by
  unfold Parse.assignment
  refine position.bind fun _ => (conditional hscript hnested).bind fun _ => kind.bind fun kind => ?_
  split
  · exact .pure _
  · exact advance.bind fun _ => (hnested .full).bind fun _ => complete _ _

theorem exprStep (level : ExprLevel) : Confined (exprStep nested level) := by
  cases level with
  | full => exact assignment hscript hnested
  | binary least => exact binary hscript hnested least
  | unary => exact unary hscript hnested
  | initializer => exact arrayInitializer hscript hnested

end Expr

theorem exprWithin (n : Nat) (level : ExprLevel) : Confined (exprWithin n level) := by
  induction n generalizing level with
  | zero => exact missingExpr
  | succ n ih => exact exprStep (Scripted.exprWithin n) ih level

end Confined

theorem exprAt_alike (h : wide.Continues narrow) (hle : state.position ≤ narrow.size)
    {level : ExprLevel}
    (hlevel : level = .initializer → narrow.kindAt state.position = .lBrace) :
    ReadsAlike (exprAt level) wide narrow state :=
  .read .exprs level h Recursion.exprs_rising hlevel fun n =>
    (Confined.exprWithin n level).alike h hle

namespace Confined

theorem expr : Confined expr := ⟨fun h _ hle => exprAt_alike h hle nofun⟩

theorem variableValue : Confined variableValue := by
  constructor
  intro wide narrow h state hle
  refine .ask ((Sentence.Local.ofKind (· == .lBrace)).same h hle) fun answer hanswer =>
    exprAt_alike h hle fun hlevel => ?_
  cases answer with
  | true => simpa using hanswer
  | false => cases hlevel

end Confined
end TolerantSyntax.Parse
