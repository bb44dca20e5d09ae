import TolerantSyntax.Proofs.Qualifier.Type

/-!
# Expressions have plain types

No expression declares a type, so all types in expressions are plain.  Operators, literals
and what else an expression takes is never a `readonly`.
-/

namespace TolerantSyntax

theorem Sentence.Clear.operator {sentence : Sentence} {place index : Nat} {op : InfixOp}
    (h : sentence.Clear place index) (hop : sentence.infixAt? index = some op) :
    sentence.Clear place (index + op.width) := by
  unfold infixAt? at hop
  split at hop
  · rename_i hshift
    cases hop
    obtain ⟨⟨-, hsecond⟩, -⟩ : (sentence.kindAt index = .gt ∧
        sentence.kindAt (index + 1) = .gt) ∧ sentence.joinedAt (index + 1) = true := by
      simpa [shiftAt] using hshift
    have hle := h.le
    exact .next (by omega) (by rw [hsecond]; decide)
  · split at hop
    · rename_i hkind
      cases hop
      exact h.taken hkind (by decide)
    · rename_i hkind
      cases hop
      exact h.taken hkind (by decide)
    · obtain ⟨binary, hbinary, rfl⟩ := Option.map_eq_some_iff.mp hop
      have hwidth : binary.width = 1 ∧ sentence.kindAt index ≠ .readonlyKw := by
        unfold BinaryOp.ofKind? at hbinary
        split at hbinary <;> cases hbinary <;> simp_all [BinaryOp.width]
      rw [InfixOp.width, hwidth.1]
      exact .next (Nat.le_succ_of_le h.le) hwidth.2

namespace Parse

variable {input : Input} {state : ParseState} {place : Nat} {nested : ExprLevel → Parse Expr}

def SteadyExpr (parse : Parse Expr) (input : Input) (place : Nat) : Prop :=
  Steady parse input place fun expr => input.sentence.Plain [.expr expr]

def KeptExpr (input : Input) (place : Nat) : Expr → ParseState → Prop :=
  Kept input place fun expr => input.sentence.Plain [.expr expr]

structure SteadyExprs (nested : ExprLevel → Parse Expr) (input : Input) (place : Nat) :
    Prop where
  exprs : ∀ level, level ≠ .initializer → SteadyExpr (nested level) input place
  initializer : ∀ state, input.sentence.Clear place state.position →
    input.sentence.kindAt state.position = .lBrace →
      Ends (nested .initializer) input state (KeptExpr input place)

theorem SteadyExprs.full (h : SteadyExprs nested input place) :
    SteadyExpr (nested .full) input place := h.exprs _ nofun

theorem SteadyExprs.initializer? (h : SteadyExprs nested input place) :
    SteadySome (whenever (check .lBrace) (nested .initializer)) input place
      fun expr => input.sentence.Plain [.expr expr] :=
  whenever_steady fun state hclear hbrace => h.initializer state hclear (by simpa using hbrace)

theorem plain_expr {expr : Expr} (h : input.sentence.Plain expr.children) :
    input.sentence.Plain [.expr expr] := .single rfl (.of_plain rfl h)

theorem plain_expr? {expr? : Option Expr}
    (h : ∀ expr ∈ expr?, input.sentence.Plain [.expr expr]) :
    input.sentence.Plain (expr?.toList.map .expr) :=
  .map fun expr hexpr => h expr (Option.mem_toList.mp hexpr)

theorem complete_steady {start : Nat} {make : ExprInfo → Expr}
    (h : ∀ info, input.sentence.Plain (make info).children) :
    SteadyExpr (complete start make) input place := .complete fun info => plain_expr (h info)

theorem argument_steady (hnested : SteadyExprs nested input place) :
    Steady (argument nested) input place fun arg => input.sentence.Plain [.expr arg.value] := by
  unfold argument
  refine (advanceAny_steady (by decide)).bind fun modifier? _ => ?_
  exact hnested.full.bind fun value hvalue => .pure hvalue

theorem argumentList_kept (hnested : SteadyExprs nested input place) {closing : TokenKind}
    (hclosing : closing ≠ .readonlyKw) (hclear : input.sentence.Clear place state.position)
    (hkind : input.sentence.kindAt state.position ≠ .readonlyKw) :
    Ends (argumentList nested closing) input state
      (Kept input place fun list => input.sentence.Plain list.nodes) := by
  unfold argumentList
  refine (advance_kept hclear hkind).onward fun opening _ => .ask fun closed => ?_
  have hargs : Steady (if closed then pure [] else separated (argument nested)) input place
      fun args => ∀ arg ∈ args, input.sentence.Plain [.expr arg.value] :=
    .ite (fun _ => .pure nofun) fun _ => separated_steady (argument_steady hnested)
  refine hargs.join fun args hargs => ?_
  exact (expect_steady hclosing).bind fun closing? _ => .pure (.map hargs)

theorem initializerElement_steady (hnested : SteadyExprs nested input place) :
    SteadyExpr (initializerElement nested) input place := by
  intro state hclear
  refine .ask fun atBrace hbrace => ?_
  cases atBrace with
  | true => exact hnested.initializer state hclear (by simpa using hbrace)
  | false => exact hnested.full state hclear

theorem arrayInitializer_kept (hnested : SteadyExprs nested input place)
    (hclear : input.sentence.Clear place state.position)
    (hkind : input.sentence.kindAt state.position = .lBrace) :
    Ends (arrayInitializer nested) input state (KeptExpr input place) := by
  unfold arrayInitializer
  refine .position ((advance_kept hclear (by simp [hkind])).onward fun _ _ => ?_)
  refine (listed_steady (initializerElement_steady hnested)).bind fun elements helements => ?_
  exact (expect_steady (by decide)).bind fun _ _ => complete_steady fun info => .map helements

theorem typeArguments?_steady :
    SteadySome typeArguments? input place fun args => input.sentence.Plain args.nodes := by
  unfold typeArguments?
  refine .checkIf (fun state hclear hlt => ?_) (.pure nofun)
  have hconfirmed : Ends confirmedArguments input state
      (Kept input place fun args? => ∀ args ∈ args?, input.sentence.Plain args.nodes) := by
    unfold confirmedArguments
    refine (typeArguments_kept type_steady hclear (by simp [hlt])).onward fun args hargs => ?_
    refine .ask fun follows => .ite (fun _ => .pure ?_) fun _ => .pure nofun
    rintro _ ⟨⟩
    exact hargs
  exact attempt_kept hclear hconfirmed

/-! ## Primary expressions -/

theorem parenthesized_kept (hnested : SteadyExprs nested input place)
    (hclear : input.sentence.Clear place state.position)
    (hkind : input.sentence.kindAt state.position = .lParen) :
    Ends (parenthesized nested) input state (KeptExpr input place) := by
  unfold parenthesized
  refine .position ((advance_kept hclear (by simp [hkind])).onward fun opening _ => ?_)
  refine hnested.full.bind fun first hfirst => (eat_steady (by decide)).bind fun comma? _ => ?_
  cases comma? with
  | none => exact (expect_steady (by decide)).bind fun _ _ => complete_steady fun info => hfirst
  | some comma =>
      refine .note ((separated_steady hnested.full).bind fun rest hrest => ?_)
      refine (expect_steady (by decide)).bind fun _ _ => complete_steady fun info => ?_
      exact hfirst.append (.map hrest)

theorem sizedRank_kept (hnested : SteadyExprs nested input place)
    (hclear : input.sentence.Clear place state.position)
    (hkind : input.sentence.kindAt state.position = .lBracket) :
    Ends (sizedRank nested) input state
      (Kept input place fun rank => input.sentence.Plain rank.nodes) := by
  unfold sizedRank
  refine .askIf (fun _ => ?_) fun _ => ?_
  · exact (arrayRank_kept hclear hkind).onward fun rank _ => .pure .nil
  · refine (advance_kept hclear (by simp [hkind])).onward fun opening _ => ?_
    refine (separated_steady hnested.full).bind fun sizes hsizes => ?_
    exact (expect_steady (by decide)).bind fun closing? _ => .pure (.map hsizes)

theorem argumentList?_steady (hnested : SteadyExprs nested input place) :
    SteadySome (whenever (check .lParen) (argumentList nested .rParen)) input place
      fun args => input.sentence.Plain args.nodes := by
  refine whenever_steady fun state hclear hparen => ?_
  have hkind : input.sentence.kindAt state.position = .lParen := by simpa using hparen
  exact argumentList_kept hnested (by decide) hclear (by simp [hkind])

theorem plain_splitArray {type element : TypeSyntax} {ranks : List ArrayRank}
    (h : input.sentence.Plain [.type type]) (hsplit : type.splitArray? = some (element, ranks)) :
    input.sentence.Plain [.type element] := by
  cases type with
  | array range inner ranks' =>
      cases hsplit
      have hmem : Node.type element ∈ (Node.type (.array range element ranks)).others :=
        List.mem_singleton_self _
      exact .single (h.placed.here.others _ hmem) (h.placed.child hmem)
  | _ => cases hsplit

theorem creation_kept (hnested : SteadyExprs nested input place)
    (hclear : input.sentence.Clear place state.position)
    (hkind : input.sentence.kindAt state.position = .newKw) :
    Ends (creation nested) input state (KeptExpr input place) := by
  unfold creation
  refine .position ((advance_kept hclear (by simp [hkind])).onward fun keyword _ => ?_)
  refine type_steady.bind fun type htype => .ask fun atBracket => .ite (fun _ => ?_) fun _ => ?_
  · have hrank : SteadySome (whenever (check .lBracket) (sizedRank nested)) input place
        fun rank => input.sentence.Plain rank.nodes :=
      whenever_steady fun state hclear hbracket =>
        sizedRank_kept hnested hclear (by simpa using hbracket)
    refine (many_steady hrank).bind fun ranks hranks => ?_
    refine hnested.initializer?.bind fun items? hitems => complete_steady fun info => ?_
    exact htype.append (.append (.flatMap hranks) (plain_expr? hitems))
  · split
    · rename_i element ranks hsplit
      have hranks : input.sentence.Plain ((ranks.map (·.toSized)).flatMap (·.nodes)) := by
        rw [List.flatMap_map]
        exact .flatMap fun rank _ => .nil
      refine hnested.initializer?.bind fun items? hitems => .skip (.notedHere _) ?_
      refine complete_steady fun info => ?_
      exact (plain_splitArray htype hsplit).append (.append hranks (plain_expr? hitems))
    · refine (argumentList?_steady hnested).bind fun args? hargs => ?_
      refine hnested.initializer?.bind fun items? hitems => .skip (.notedHere _) ?_
      refine complete_steady fun info => htype.append (.append (.flatMap ?_) (plain_expr? hitems))
      exact fun args hmem => hargs args (Option.mem_toList.mp hmem)

theorem defaultValue_kept (hclear : input.sentence.Clear place state.position)
    (hkind : input.sentence.kindAt state.position = .defaultKw) :
    Ends defaultValue input state (KeptExpr input place) := by
  unfold defaultValue
  refine .position ((advance_kept hclear (by simp [hkind])).onward fun keyword _ => ?_)
  refine (eat_steady (by decide)).bind fun opening? _ => ?_
  cases opening? with
  | none => exact complete_steady fun info => .nil
  | some opening =>
      refine type_steady.bind fun type htype => (expect_steady (by decide)).bind fun _ _ => ?_
      exact complete_steady fun info => htype

theorem typeOf_kept (hclear : input.sentence.Clear place state.position)
    (hkind : input.sentence.kindAt state.position = .typeofKw) :
    Ends typeOf input state (KeptExpr input place) := by
  unfold typeOf
  refine .position ((advance_kept hclear (by simp [hkind])).onward fun keyword _ => ?_)
  refine (expect_steady (by decide)).bind fun _ _ => type_steady.bind fun type htype => ?_
  exact (expect_steady (by decide)).bind fun _ _ => complete_steady fun info => htype

theorem throwExpr_kept (hnested : SteadyExprs nested input place)
    (hclear : input.sentence.Clear place state.position)
    (hkind : input.sentence.kindAt state.position = .throwKw) :
    Ends (throwExpr nested) input state (KeptExpr input place) := by
  unfold throwExpr
  refine .position (.noteHere (.onward (advance_kept hclear (by simp [hkind])) fun keyword _ => ?_))
  exact hnested.full.bind fun operand hoperand => complete_steady fun info => hoperand

theorem name_kept (hclear : input.sentence.Clear place state.position)
    (hkind : input.sentence.kindAt state.position = .identifier) :
    Ends name input state (KeptExpr input place) := by
  unfold name
  refine .position ((advance_kept hclear (by simp [hkind])).onward fun token _ => ?_)
  refine typeArguments?_steady.bind fun args? hargs => ?_
  cases args? with
  | none => exact complete_steady fun info => .nil
  | some args => exact complete_steady fun info => hargs args rfl

theorem single_kept {make : ExprInfo → Nat → Expr}
    (hmake : ∀ info token, (make info token).children = [])
    (h : Ends advance input state (Kept input place fun index => index = state.position)) :
    Ends (single make) input state (KeptExpr input place) := by
  unfold single
  refine .position (h.onward fun token _ => ?_)
  refine complete_steady fun info => ?_
  rw [hmake]
  exact .nil

theorem missingExpr_steady : SteadyExpr missingExpr input place :=
  .noteHere (.position fun _ => complete_steady fun _ => .nil)

theorem primary_steady (hnested : SteadyExprs nested input place) :
    SteadyExpr (primary nested) input place := by
  unfold primary
  refine .kind fun state kind hclear hkind => ?_
  split
  · exact name_kept hclear hkind
  · exact single_kept (fun _ _ => rfl) (advance_kept hclear (by simp [hkind]))
  · exact single_kept (fun _ _ => rfl) (advance_kept hclear (by simp [hkind]))
  · exact parenthesized_kept hnested hclear hkind
  · exact creation_kept hnested hclear hkind
  · exact defaultValue_kept hclear hkind
  · exact typeOf_kept hclear hkind
  · exact throwExpr_kept hnested hclear hkind
  · refine .ite (fun hliteral => ?_) fun _ => .ite (fun hpredefined => ?_) fun _ => ?_
    · exact single_kept (fun _ _ => rfl) (advance_told hclear hkind hliteral nofun)
    · exact single_kept (fun _ _ => rfl) (advance_told hclear hkind hpredefined nofun)
    · exact missingExpr_steady state hclear

/-! ## Suffixes and operators -/

theorem exprSuffix?_steady (hnested : SteadyExprs nested input place) (start : Nat) {expr : Expr}
    (hexpr : input.sentence.Plain [.expr expr]) :
    SteadySome (exprSuffix? nested start expr) input place
      fun grown => input.sentence.Plain [.expr grown] := by
  have hsome : ∀ {make : ExprInfo → Expr},
      (∀ info, input.sentence.Plain (make info).children) →
      SteadySome (do return some (← complete start make)) input place
        fun grown => input.sentence.Plain [.expr grown] := by
    intro make h
    refine (complete_steady h).bind fun grown hgrown => .pure ?_
    rintro _ ⟨⟩
    exact hgrown
  unfold exprSuffix?
  refine .kind fun state kind hclear hkind => ?_
  split
  · refine (advance_kept hclear (by simp [hkind])).onward fun dot _ => ?_
    refine (expect_steady (by decide)).bind fun name? _ => ?_
    have hargs : SteadySome (if name?.isSome then typeArguments? else pure none) input place
        fun args => input.sentence.Plain args.nodes :=
      .ite (fun _ => typeArguments?_steady) fun _ => .pure nofun
    refine hargs.join fun args? hargs => hsome fun info => ?_
    cases args? with
    | none => exact hexpr
    | some args => exact hexpr.append (hargs args rfl)
  · refine .onward (argumentList_kept hnested (by decide) hclear (by simp [hkind])) ?_
    exact fun args hargs => hsome fun info => hexpr.append hargs
  · refine .onward (argumentList_kept hnested (by decide) hclear (by simp [hkind])) ?_
    exact fun args hargs => hsome fun info => hexpr.append hargs
  · split
    · rename_i op hop
      refine (advance_told hclear hkind hop nofun).onward fun _ _ => ?_
      exact hsome fun info => hexpr
    · exact .pure ⟨nofun, hclear⟩

theorem suffixed_steady (hnested : SteadyExprs nested input place) :
    SteadyExpr (suffixed nested) input place :=
  .position fun start => (primary_steady hnested).bind fun _ hexpr =>
    grow_steady (fun _ hexpr => exprSuffix?_steady hnested start hexpr) hexpr

theorem castHead?_kept (hclear : input.sentence.Clear place state.position)
    (hkind : input.sentence.kindAt state.position = .lParen) :
    Ends castHead? input state
      (Kept input place fun type? => ∀ type ∈ type?, input.sentence.Plain [.type type]) := by
  have hhead : Ends castHead input state
      (Kept input place fun type? => ∀ type ∈ type?, input.sentence.Plain [.type type]) := by
    unfold castHead
    refine (advance_kept hclear (by simp [hkind])).onward fun _ _ => ?_
    refine type_steady.bind fun type htype => .ite (fun _ => .pure nofun) fun _ => ?_
    refine (eat_steady (by decide)).bind fun closing? _ => ?_
    cases closing? with
    | none => exact .pure nofun
    | some closing =>
        refine .ask fun follows => .ite (fun _ => .pure ?_) fun _ => .pure nofun
        rintro _ ⟨⟩
        exact htype
  unfold castHead?
  have hmay : Ends mayBeCast input state fun _ after => after = state := rfl
  refine hmay.bind ?_
  rintro cast _ rfl
  exact .ite (fun _ => attempt_kept hclear hhead) fun _ => .pure ⟨nofun, hclear⟩

theorem unary_steady (hnested : SteadyExprs nested input place) :
    SteadyExpr (unary nested) input place := by
  have hoperand := hnested.exprs .unary nofun
  unfold unary
  refine .position fun start => .kind fun state kind hclear hkind => ?_
  split
  · refine .noteHere (.onward (advance_kept hclear (by simp [hkind])) fun keyword _ => ?_)
    exact hoperand.bind fun operand hoperand => complete_steady fun info => hoperand
  · refine (castHead?_kept hclear hkind).onward fun type? htype => ?_
    cases type? with
    | none => exact suffixed_steady hnested
    | some type =>
        refine hoperand.bind fun operand hoperand => complete_steady fun info => ?_
        exact (htype type rfl).append hoperand
  · split
    · rename_i op hop
      refine (advance_told hclear hkind hop nofun).onward fun _ _ => ?_
      exact hoperand.bind fun operand hoperand => complete_steady fun info => hoperand
    · exact suffixed_steady hnested state hclear

theorem infixStep?_steady (hnested : SteadyExprs nested input place) (start least : Nat)
    {left : Expr} (hleft : input.sentence.Plain [.expr left]) :
    SteadySome (infixStep? nested start least left) input place
      fun grown => input.sentence.Plain [.expr grown] := by
  intro state hclear
  unfold infixStep?
  refine .ask fun op? hop => ?_
  cases op? with
  | none => exact .pure ⟨nofun, hclear⟩
  | some op =>
      refine .ite (fun _ => .pure ⟨nofun, hclear⟩) fun _ => ?_
      refine (moveTo_kept (hclear.operator hop)).onward fun _ _ => ?_
      cases op with
      | isTest | asTest =>
          refine type_steady.bind fun type htype => ?_
          refine (complete_steady fun info => hleft.append htype).bind fun grown hgrown => .pure ?_
          rintro _ ⟨⟩
          exact hgrown
      | binary op =>
          refine (hnested.exprs (.binary op.rightLevel) nofun).bind fun right hright => ?_
          refine (complete_steady fun info => hleft.append hright).bind fun grown hgrown =>
            .pure ?_
          rintro _ ⟨⟩
          exact hgrown

theorem binary_steady (hnested : SteadyExprs nested input place) (least : Nat) :
    SteadyExpr (binary nested least) input place :=
  .position fun start => (unary_steady hnested).bind fun _ hexpr =>
    grow_steady (fun _ hleft => infixStep?_steady hnested start least hleft) hexpr

theorem conditional_steady (hnested : SteadyExprs nested input place) :
    SteadyExpr (conditional nested) input place := by
  unfold conditional
  refine .position fun start => (binary_steady hnested 1).bind fun condition hcondition => ?_
  refine (eat_steady (by decide)).bind fun question? _ => ?_
  cases question? with
  | none => exact .pure hcondition
  | some question =>
      refine hnested.full.bind fun whenTrue htrue => (expect_steady (by decide)).bind fun _ _ => ?_
      refine hnested.full.bind fun whenFalse hfalse => complete_steady fun info => ?_
      exact hcondition.append (htrue.append hfalse)

theorem assignment_steady (hnested : SteadyExprs nested input place) :
    SteadyExpr (assignment nested) input place := by
  unfold assignment
  refine .position fun start => (conditional_steady hnested).bind fun target htarget => ?_
  refine .kind fun state kind hclear hkind => ?_
  split
  · exact .pure ⟨htarget, hclear⟩
  · rename_i op hop
    refine (advance_told hclear hkind hop nofun).onward fun _ _ => ?_
    exact hnested.full.bind fun value hvalue => complete_steady fun info => htarget.append hvalue

theorem exprStep_steady (hnested : SteadyExprs nested input place) :
    SteadyExprs (exprStep nested) input place where
  exprs level hlevel := by
    cases level with
    | full => exact assignment_steady hnested
    | binary least => exact binary_steady hnested least
    | unary => exact unary_steady hnested
    | initializer => exact absurd rfl hlevel
  initializer _ hclear hkind := arrayInitializer_kept hnested hclear hkind

theorem exprWithin_steady (n : Nat) : SteadyExprs (exprWithin n) input place := by
  induction n with
  | zero =>
      have hmissing : SteadyExpr missingExpr input place := missingExpr_steady
      exact ⟨fun _ _ => hmissing, fun state hclear _ => hmissing state hclear⟩
  | succ n ih => exact exprStep_steady ih

theorem exprAt_steady : SteadyExprs exprAt input place where
  exprs level hlevel := .left fun n => (exprWithin_steady n).exprs level hlevel
  initializer state hclear hkind := .left ((exprWithin_steady _).initializer state hclear hkind)

theorem expr_steady : SteadyExpr expr input place := exprAt_steady.full

theorem variableValue_steady : SteadyExpr variableValue input place :=
  initializerElement_steady exprAt_steady

end Parse
end TolerantSyntax
