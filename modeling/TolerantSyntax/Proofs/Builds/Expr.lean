import TolerantSyntax.Proofs.Builds.Type
import TolerantSyntax.Proofs.Reads.Expr

/-!
# Expressions are built as they stand

An expression is complete behind everything inside it, so it goes into the table behind
its parts.  Suffixes and operators take the expression in front of them as their first
part: all of them start where the whole expression does.
-/

namespace TolerantSyntax.Parse

open Layout (Builds)

variable {input : Input} {state origin : ParseState} {nested : ExprLevel → Parse Expr}

def GivesExpr (nested : ExprLevel → Parse Expr) (input : Input) : Prop :=
  ∀ level, Gives (nested level) input fun expr => [expr.layout]

theorem argument_builds (hnested : GivesExpr nested input) :
    Gives (argument nested) input (·.parts) := by
  intro state
  unfold argument
  refine (advanceAny_builds (by decide) state).bind fun modifier? after₁ hmodifier => ?_
  exact (hnested .full after₁).bind fun value after₂ hvalue => .pure (hmodifier.trans hvalue)

theorem argumentList_builds (hnested : GivesExpr nested input) {closing : TokenKind}
    (hclosing : closing ≠ .eof) (hkind : input.sentence.kindAt state.position ≠ .eof) :
    Ends (argumentList nested closing) input state fun list after =>
      Builds list.parts state after := by
  have hargs : ∀ closed : Bool,
      Gives (if closed then pure [] else separated (argument nested)) input argumentParts := by
    intro closed before
    refine .ite (fun _ => .pure .refl) fun _ => ?_
    refine (separated_builds (argument_builds hnested) before).imp fun args after h => ?_
    rw [argumentParts_eq]
    exact h
  unfold argumentList
  refine (advance_token hkind).bind fun opening after₁ hopening => ?_
  refine .ask fun closed _ => (hargs closed after₁).join fun args after₂ hargs => ?_
  refine (expect_builds hclosing after₂).bind fun closing? after₃ hclosing => ?_
  exact .pure (hopening.trans (hargs.trans hclosing))

theorem initializerElement_builds (hnested : GivesExpr nested input) :
    Gives (initializerElement nested) input fun expr => [expr.layout] :=
  fun state => .ask fun _ _ => hnested _ state

theorem arrayInitializer_builds (hnested : GivesExpr nested input) :
    Gives (arrayInitializer nested) input fun expr => [expr.layout] := by
  intro state
  unfold arrayInitializer
  refine .position ((advance_passes state).bind fun _ after₁ hopening => ?_)
  refine (listed_builds (initializerElement_builds hnested) after₁).bind
    fun elements after₂ helements => ?_
  refine (expect_passes (by decide) after₂).bind fun _ after₃ hclosing => ?_
  refine complete_builds rfl (fun _ => rfl) fun info _ => ?_
  rw [Expr.parts, exprLayouts_eq, List.map_eq_flatMap]
  simpa using hopening.trans (helements.trans hclosing)

theorem confirmedArguments_builds (hkind : input.sentence.kindAt state.position ≠ .eof) :
    Ends confirmedArguments input state fun args? after =>
      ∀ args, args? = some args → Builds args.parts state after := by
  unfold confirmedArguments
  refine (typeArguments_builds type_gives hkind).bind fun args after hargs => ?_
  refine .ask fun follows _ => .ite (fun _ => .pure ?_) fun _ => .pure nofun
  rintro _ ⟨⟩
  exact hargs

theorem typeArguments?_builds : GivesSome typeArguments? input (·.parts) := by
  intro state
  unfold typeArguments?
  refine .checkIf (fun hlt => attempt_ends ?_) fun _ => .pure .refl
  refine (confirmedArguments_builds (by simp [hlt])).imp fun args? after h => ?_
  cases args? with
  | none => exact .refl
  | some args => simpa using h args rfl

/-! ## Primary expressions -/

theorem parenthesized_builds (hnested : GivesExpr nested input)
    (hkind : input.sentence.kindAt state.position ≠ .eof) :
    Ends (parenthesized nested) input state fun expr after =>
      Builds [expr.layout] state after := by
  unfold parenthesized
  -- Only behind the first expression it is known whether the `(` opens a tuple.
  refine .position (((advance_opens hkind).and (advance_passes state)).bind ?_)
  rintro _ after₁ ⟨⟨rfl, -, hopening⟩, hpassed⟩
  refine (hnested .full after₁).bind fun first after₂ hfirst => ?_
  refine (eat_passes (by decide) after₂).bind fun comma? after₃ hcomma => ?_
  cases comma? with
  | none =>
      refine (expect_passes (by decide) after₃).bind fun _ after₄ hclosing => ?_
      refine complete_builds rfl (fun _ => rfl) fun info _ => ?_
      exact hpassed.trans (hfirst.trans (hcomma.trans hclosing))
  | some comma =>
      have hopened : Ends (note (.uses .tuples state.position)) input after₃ fun _ after =>
          Builds [.implied (some .tuples) state.position, first.layout] state after :=
        (hopening.trans (hfirst.trans hcomma)).opened .tuples
      refine hopened.bind fun _ after₄ hopened => ?_
      refine (separated_builds (hnested .full) after₄).bind fun rest after₅ hrest => ?_
      refine (expect_passes (by decide) after₅).bind fun _ after₆ hclosing => ?_
      refine complete_builds rfl (fun _ => rfl) fun info hstart => ?_
      rw [Expr.parts, exprLayouts_eq, List.map_eq_flatMap, hstart]
      simpa using hopened.trans (hrest.trans hclosing)

theorem sizedRank_builds (hnested : GivesExpr nested input)
    (hkind : input.sentence.kindAt state.position ≠ .eof) :
    Ends (sizedRank nested) input state fun rank after => Builds rank.parts state after := by
  unfold sizedRank
  refine .askIf (fun _ => ?_) fun _ => ?_
  · exact (arrayRank_builds hkind).bind fun rank after hrank => .pure hrank
  · refine (advance_token hkind).bind fun opening after₁ hopening => ?_
    refine (separated_builds (hnested .full) after₁).bind fun sizes after₂ hsizes => ?_
    refine (expect_builds (by decide) after₂).bind fun closing? after₃ hclosing => .pure ?_
    rw [SizedRank.parts, exprLayouts_eq, List.map_eq_flatMap]
    exact hopening.trans (hsizes.trans hclosing)

theorem sizedRanks_build (hnested : GivesExpr nested input) :
    Gives (many (whenever (check .lBracket) (sizedRank nested))) input rankParts := by
  have hrank : GivesSome (whenever (check .lBracket) (sizedRank nested)) input (·.parts) :=
    whenever_builds fun before hbracket => sizedRank_builds hnested (by simp_all)
  intro state
  refine (many_builds hrank state).imp fun ranks after h => ?_
  rw [rankParts_eq]
  exact h

theorem toSized_parts (ranks : List ArrayRank) :
    rankParts (ranks.map (·.toSized)) = ranks.flatMap (·.parts) := by
  rw [rankParts_eq, List.flatMap_map]
  rfl

theorem initializer?_builds (hnested : GivesExpr nested input) :
    Gives (whenever (check .lBrace) (nested .initializer)) input exprLayouts? := by
  intro state
  refine whenever_ends (fun _ => ?_) fun _ => .refl
  exact hnested .initializer state

theorem argumentList?_builds (hnested : GivesExpr nested input) :
    Gives (whenever (check .lParen) (argumentList nested .rParen)) input
      argumentListParts? := by
  intro state
  refine whenever_ends (fun hparen => ?_) fun _ => .refl
  exact argumentList_builds hnested (by decide) (by simp_all)

theorem creation_builds (hnested : GivesExpr nested input)
    (hkind : input.sentence.kindAt state.position ≠ .eof) :
    Ends (creation nested) input state fun expr after => Builds [expr.layout] state after := by
  unfold creation
  refine .position ((advance_token hkind).bind fun keyword after₁ hkeyword => ?_)
  refine (type_builds after₁).bind ?_
  rintro type after₂ ⟨-, htype⟩
  refine .checkIf (fun _ => ?_) fun _ => ?_
  · refine (sizedRanks_build hnested after₂).bind fun ranks after₃ hranks => ?_
    refine (initializer?_builds hnested after₃).bind fun items? after₄ hitems => ?_
    refine complete_builds rfl (fun _ => rfl) fun info _ => ?_
    exact hkeyword.trans (htype.layout.trans (hranks.trans hitems))
  · split
    · rename_i element ranks hsplit
      have hparts : type.parts = element.layout :: rankParts (ranks.map (·.toSized)) := by
        cases type <;> simp [TypeSyntax.splitArray?] at hsplit
        obtain ⟨rfl, rfl⟩ := hsplit
        rw [toSized_parts]
        rfl
      refine (initializer?_builds hnested after₂).bind fun items? after₃ hitems => ?_
      have hexpr := hkeyword.trans (htype.parts.trans hitems)
      rw [hparts] at hexpr
      refine .skip (fun after => Builds (.token keyword :: element.layout ::
          (rankParts (ranks.map (·.toSized)) ++ exprLayouts? items?)) state after)
        (fun _ => hexpr.noted rfl) (fun _ => hexpr) fun after₄ hexpr => ?_
      exact complete_builds rfl (fun _ => rfl) fun info _ => hexpr
    · refine (argumentList?_builds hnested after₂).bind fun args? after₃ hargs => ?_
      refine (initializer?_builds hnested after₃).bind fun items? after₄ hitems => ?_
      have hexpr := hkeyword.trans (htype.layout.trans (hargs.trans hitems))
      refine .skip (fun after => Builds (.token keyword :: type.layout ::
          (argumentListParts? args? ++ exprLayouts? items?)) state after)
        (fun _ => hexpr.noted rfl) (fun _ => hexpr) fun after₅ hexpr => ?_
      exact complete_builds rfl (fun _ => rfl) fun info _ => hexpr

theorem defaultValue_builds (hkind : input.sentence.kindAt state.position ≠ .eof) :
    Ends defaultValue input state fun expr after => Builds [expr.layout] state after := by
  unfold defaultValue
  refine .position ((advance_token hkind).bind fun keyword after₁ hkeyword => ?_)
  refine (eat_passes (by decide) after₁).bind fun opening? after₂ hopening => ?_
  cases opening? with
  | none => exact complete_builds rfl (fun _ => rfl) fun info _ => hkeyword.trans hopening
  | some opening =>
      refine (type_gives after₂).bind fun type after₃ htype => ?_
      refine (expect_passes (by decide) after₃).bind fun _ after₄ hclosing => ?_
      refine complete_builds rfl (fun _ => rfl) fun info _ => ?_
      exact hkeyword.trans (hopening.trans (htype.trans hclosing))

theorem typeOf_builds (hkind : input.sentence.kindAt state.position ≠ .eof) :
    Ends typeOf input state fun expr after => Builds [expr.layout] state after := by
  unfold typeOf
  refine .position ((advance_token hkind).bind fun keyword after₁ hkeyword => ?_)
  refine (expect_passes (by decide) after₁).bind fun _ after₂ hopening => ?_
  refine (type_gives after₂).bind fun type after₃ htype => ?_
  refine (expect_passes (by decide) after₃).bind fun _ after₄ hclosing => ?_
  refine complete_builds rfl (fun _ => rfl) fun info _ => ?_
  exact hkeyword.trans (hopening.trans (htype.trans hclosing))

theorem throwExpr_builds (hnested : GivesExpr nested input)
    (hkind : input.sentence.kindAt state.position ≠ .eof) :
    Ends (throwExpr nested) input state fun expr after => Builds [expr.layout] state after := by
  unfold throwExpr
  refine .position (gated hkind fun after₁ _ hkeyword => ?_)
  refine (hnested .full after₁).bind fun operand after₂ hoperand => ?_
  exact complete_builds rfl (fun _ => rfl) fun info _ => hkeyword.trans hoperand

theorem name_builds (hkind : input.sentence.kindAt state.position ≠ .eof) :
    Ends name input state fun expr after => Builds [expr.layout] state after := by
  unfold name
  refine .position ((advance_token hkind).bind fun token after₁ htoken => ?_)
  refine (typeArguments?_builds after₁).bind fun args? after₂ hargs => ?_
  cases args? with
  | none => exact complete_builds rfl (fun _ => rfl) fun info _ => htoken.trans hargs
  | some args =>
      refine complete_builds rfl (fun _ => rfl) fun info _ => ?_
      simpa [Expr.parts] using htoken.trans hargs

theorem single_builds {make : ExprInfo → Nat → Expr}
    (hkind : input.sentence.kindAt state.position ≠ .eof)
    (hinfo : ∀ info token, (make info token).info = info)
    (hmake : ∀ info token, (make info token).parts = [.token token]) :
    Ends (single make) input state fun expr after => Builds [expr.layout] state after := by
  unfold single
  refine .position ((advance_token hkind).bind fun token after₁ htoken => ?_)
  refine complete_builds rfl (hinfo · token) fun info _ => ?_
  rw [hmake]
  exact htoken

theorem missingExpr_builds : Gives missingExpr input fun expr => [expr.layout] := by
  intro state
  refine (noteHere_builds rfl).bind ?_
  rintro _ after ⟨hat, hnoted⟩
  exact .position (complete_builds hat (fun _ => rfl) fun info _ => hnoted)

theorem primary_builds (hnested : GivesExpr nested input) :
    Gives (primary nested) input fun expr => [expr.layout] := by
  intro state
  unfold primary
  refine .kind fun kind hkind => ?_
  split
  · exact name_builds (by simp [hkind])
  · exact single_builds (by simp [hkind]) (fun _ _ => rfl) fun _ _ => rfl
  · exact single_builds (by simp [hkind]) (fun _ _ => rfl) fun _ _ => rfl
  · exact parenthesized_builds hnested (by simp [hkind])
  · exact creation_builds hnested (by simp [hkind])
  · exact defaultValue_builds (by simp [hkind])
  · exact typeOf_builds (by simp [hkind])
  · exact throwExpr_builds hnested (by simp [hkind])
  · by_cases heof : kind = .eof
    · subst heof
      exact missingExpr_builds state
    · rw [← hkind] at heof
      refine .ite (fun _ => ?_) fun _ => .ite (fun _ => ?_) fun _ => missingExpr_builds state
      · exact single_builds heof (fun _ _ => rfl) fun _ _ => rfl
      · exact single_builds heof (fun _ _ => rfl) fun _ _ => rfl

/-! ## Suffixes and operators -/

theorem grown_builds {start : Nat} {make : ExprInfo → Expr} {expr : Expr}
    (hstart : start = origin.position) (hmake : ∀ info, (make info).info = info)
    (h : ∀ info, info.range.start = start → Builds (make info).parts origin state) :
    Ends (complete start make >>= fun longer => pure (some longer)) input state
      fun longer? after => Builds [(longer?.getD expr).layout] origin after :=
  (complete_builds hstart hmake h).bind fun _ _ h => .pure h

theorem exprSuffix?_builds (hnested : GivesExpr nested input) {expr : Expr}
    (hexpr : Builds [expr.layout] origin state) :
    Ends (exprSuffix? nested origin.position expr) input state fun longer? after =>
      Builds [(longer?.getD expr).layout] origin after := by
  unfold exprSuffix?
  refine .kind fun kind hkind => ?_
  split
  · refine (advance_token (by simp [hkind])).bind fun dot after₁ hdot => ?_
    refine (expect_builds (by decide) after₁).bind fun name? after₂ hname => ?_
    have hargs : Gives (if name?.isSome then typeArguments? else pure none) input
        fun args? => args?.toList.flatMap (·.parts) :=
      fun before => .ite (fun _ => typeArguments?_builds before) fun _ => .pure .refl
    refine (hargs after₂).join fun args? after₃ hargs => ?_
    refine grown_builds rfl (fun _ => rfl) fun info _ => ?_
    exact hexpr.trans (hdot.trans (hname.trans hargs))
  · refine (argumentList_builds hnested (by decide) (by simp [hkind])).bind
      fun args after₁ hargs => ?_
    exact grown_builds rfl (fun _ => rfl) fun info _ => hexpr.trans hargs
  · refine (argumentList_builds hnested (by decide) (by simp [hkind])).bind
      fun args after₁ hargs => ?_
    exact grown_builds rfl (fun _ => rfl) fun info _ => hexpr.trans hargs
  · split
    · refine (advance_passes state).bind fun _ after₁ hop => ?_
      exact grown_builds rfl (fun _ => rfl) fun info _ => hexpr.trans hop
    · exact .pure hexpr

theorem growExpr_builds {step : Expr → Parse (Option Expr)} {expr : Expr}
    (hstep : ∀ expr state, Builds [expr.layout] origin state →
      Ends (step expr) input state fun longer? after =>
        Builds [(longer?.getD expr).layout] origin after)
    (hexpr : Builds [expr.layout] origin state) :
    Ends (grow step expr) input state fun expr after => Builds [expr.layout] origin after := by
  refine grow_ends (fun expr : Expr => fun after => Builds [expr.layout] origin after) ?_ hexpr
  intro expr before hexpr
  refine (hstep expr before hexpr).imp fun longer? after h => ?_
  cases longer? <;> exact h

theorem suffixed_builds (hnested : GivesExpr nested input) :
    Gives (suffixed nested) input fun expr => [expr.layout] := by
  intro state
  unfold suffixed
  refine .position ((primary_builds hnested state).bind fun first after₁ hfirst => ?_)
  exact growExpr_builds (fun expr before => exprSuffix?_builds hnested) hfirst

theorem castHead?_builds :
    GivesSome castHead? input fun type => [type.layout] := by
  intro state
  have hhead : Ends castHead input state fun type? after =>
      ∀ type, type? = some type → Builds [type.layout] state after := by
    unfold castHead
    refine (advance_passes state).bind fun _ after₁ hopening => ?_
    refine (type_gives after₁).bind fun type after₂ htype => ?_
    refine .ite (fun _ => .pure nofun) fun _ => ?_
    refine (eat_passes (by decide) after₂).bind fun closing? after₃ hclosing => ?_
    cases closing? with
    | none => exact .pure nofun
    | some closing =>
        refine .ask fun follows _ => .ite (fun _ => .pure ?_) fun _ => .pure nofun
        rintro _ ⟨⟩
        exact hopening.trans (htype.trans hclosing)
  have hanswer : Ends mayBeCast input state fun _ after => after = state := rfl
  refine hanswer.bind ?_
  rintro answer _ rfl
  refine .ite (fun _ => attempt_ends ?_) fun _ => .pure .refl
  refine hhead.imp fun type? after h => ?_
  cases type? with
  | none => exact .refl
  | some type => exact h type rfl

theorem unary_builds (hnested : GivesExpr nested input) :
    Gives (unary nested) input fun expr => [expr.layout] := by
  intro state
  unfold unary
  refine .position (.kind fun kind hkind => ?_)
  split
  · refine gated (by simp [hkind]) fun after₁ _ hkeyword => ?_
    refine (hnested .unary after₁).bind fun operand after₂ hoperand => ?_
    exact complete_builds rfl (fun _ => rfl) fun info _ => hkeyword.trans hoperand
  · refine (castHead?_builds state).bind fun type? after₁ htype => ?_
    cases type? with
    | none => exact (suffixed_builds hnested after₁).imp fun expr after h => htype.trans h
    | some type =>
        refine (hnested .unary after₁).bind fun operand after₂ hoperand => ?_
        exact complete_builds rfl (fun _ => rfl) fun info _ => htype.trans hoperand
  · split
    · refine (advance_passes state).bind fun _ after₁ hop => ?_
      refine (hnested .unary after₁).bind fun operand after₂ hoperand => ?_
      exact complete_builds rfl (fun _ => rfl) fun info _ => hop.trans hoperand
    · exact suffixed_builds hnested state

theorem infixStep?_builds (hnested : GivesExpr nested input) (least : Nat) {left : Expr}
    (hleft : Builds [left.layout] origin state) :
    Ends (infixStep? nested origin.position least left) input state fun longer? after =>
      Builds [(longer?.getD left).layout] origin after := by
  unfold infixStep?
  refine .ask fun op? _ => ?_
  cases op? with
  | none => exact .pure hleft
  | some op =>
      refine .ite (fun _ => .pure hleft) fun _ => ?_
      refine (moveTo_builds hleft fun index => Nat.le_add_right index op.width).bind
        fun _ after₁ hleft => ?_
      cases op with
      | isTest | asTest =>
          refine (type_gives after₁).bind fun type after₂ htype => ?_
          exact grown_builds rfl (fun _ => rfl) fun info _ => hleft.trans htype
      | binary op =>
          refine (hnested (.binary op.rightLevel) after₁).bind fun right after₂ hright => ?_
          exact grown_builds rfl (fun _ => rfl) fun info _ => hleft.trans hright

theorem binary_builds (hnested : GivesExpr nested input) (least : Nat) :
    Gives (binary nested least) input fun expr => [expr.layout] := by
  intro state
  unfold binary
  refine .position ((unary_builds hnested state).bind fun first after₁ hfirst => ?_)
  exact growExpr_builds (fun left before => infixStep?_builds hnested least) hfirst

theorem conditional_builds (hnested : GivesExpr nested input) :
    Gives (conditional nested) input fun expr => [expr.layout] := by
  intro state
  unfold conditional
  refine .position ((binary_builds hnested 1 state).bind fun condition after₁ hcondition => ?_)
  refine (eat_passes (by decide) after₁).bind fun question? after₂ hquestion => ?_
  cases question? with
  | none => exact .pure (hcondition.trans hquestion)
  | some question =>
      refine (hnested .full after₂).bind fun whenTrue after₃ htrue => ?_
      refine (expect_passes (by decide) after₃).bind fun _ after₄ hcolon => ?_
      refine (hnested .full after₄).bind fun whenFalse after₅ hfalse => ?_
      refine complete_builds rfl (fun _ => rfl) fun info _ => ?_
      exact hcondition.trans (hquestion.trans (htrue.trans (hcolon.trans hfalse)))

theorem assignment_builds (hnested : GivesExpr nested input) :
    Gives (assignment nested) input fun expr => [expr.layout] := by
  intro state
  unfold assignment
  refine .position ((conditional_builds hnested state).bind fun target after₁ htarget => ?_)
  refine .kind fun kind _ => ?_
  split
  · exact .pure htarget
  · refine (advance_passes after₁).bind fun _ after₂ hop => ?_
    refine (hnested .full after₂).bind fun value after₃ hvalue => ?_
    exact complete_builds rfl (fun _ => rfl) fun info _ => htarget.trans (hop.trans hvalue)

theorem exprStep_builds (hnested : GivesExpr nested input) :
    GivesExpr (exprStep nested) input := by
  intro level
  cases level with
  | full => exact assignment_builds hnested
  | binary least => exact binary_builds hnested least
  | unary => exact unary_builds hnested
  | initializer => exact arrayInitializer_builds hnested

theorem exprWithin_builds (n : Nat) : GivesExpr (exprWithin n) input := by
  induction n with
  | zero => exact fun level => missingExpr_builds
  | succ n ih => exact exprStep_builds ih

theorem exprAt_builds : GivesExpr exprAt input :=
  fun level state => .left (exprWithin_builds _ level state)

theorem expr_builds : Gives expr input fun expr => [expr.layout] := exprAt_builds .full

theorem variableValue_builds : Gives variableValue input fun expr => [expr.layout] :=
  initializerElement_builds exprAt_builds

end TolerantSyntax.Parse
