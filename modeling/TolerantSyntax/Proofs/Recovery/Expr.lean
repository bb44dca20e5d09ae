import TolerantSyntax.Proofs.Recovery.Type

/-!
# Expressions gather their entries

An expression that is missing is noted where the tree has it.  Behind a symbol that starts
an expression one is there, so it takes a symbol.  What is tried and given up leaves neither
a finding nor an entry.
-/

namespace TolerantSyntax

open Sentence (Gathers)

def TokenKind.startsPrimary : TokenKind → Bool
  | .identifier | .thisKw | .baseKw | .lParen | .newKw | .defaultKw | .typeofKw | .throwKw => true
  | kind => kind.isLiteral || kind.isPredefinedType

theorem TokenKind.startsPrimary_of_start {kind : TokenKind}
    (h : TokenSet.expressionStart.contains kind = true) (href : kind ≠ .refKw)
    (hop : UnaryOp.ofKind? kind = none) : kind.startsPrimary = true := by
  have hkinds : ∀ kind ∈ TokenKind.all, TokenSet.expressionStart.contains kind = true →
      kind ≠ .refKw → UnaryOp.ofKind? kind = none → kind.startsPrimary = true := by
    decide +kernel
  exact hkinds kind kind.mem_all h href hop

theorem TokenKind.isPlain_of_single {kind : TokenKind}
    (h : kind.isLiteral = true ∨ kind.isPredefinedType = true) : kind.isPlain = true := by
  refine isPlain_of_ne ?_ ?_ <;> rintro rfl <;> rcases h with h | h <;> cases h

theorem UnaryOp.isPlain_of_ofKind? {kind : TokenKind} {op : UnaryOp}
    (h : UnaryOp.ofKind? kind = some op) : kind.isPlain = true := by
  unfold UnaryOp.ofKind? at h
  split at h <;> cases h <;> rfl

theorem StepOp.isPlain_of_ofKind? {kind : TokenKind} {op : StepOp}
    (h : StepOp.ofKind? kind = some op) : kind.isPlain = true := by
  unfold StepOp.ofKind? at h
  split at h <;> cases h <;> rfl

theorem AssignOp.isPlain_of_ofKind? {kind : TokenKind} {op : AssignOp}
    (h : AssignOp.ofKind? kind = some op) : kind.isPlain = true := by
  unfold AssignOp.ofKind? at h
  split at h <;> cases h <;> rfl

theorem BinaryOp.isPlain_of_ofKind? {kind : TokenKind} {op : BinaryOp}
    (h : BinaryOp.ofKind? kind = some op) : kind.isPlain = true ∧ op.width = 1 := by
  unfold BinaryOp.ofKind? at h
  split at h <;> cases h <;> exact ⟨rfl, rfl⟩

namespace Parse

variable {input : Input} {state origin : ParseState} {nested : ExprLevel → Parse Expr}

theorem gathers_operator {op : InfixOp} (h : input.sentence.infixAt? state.position = some op) :
    input.sentence.Gathers [] state { state with position := state.position + op.width } := by
  unfold Sentence.infixAt? at h
  split at h
  · rename_i hshift
    cases h
    obtain ⟨⟨hfirst, hsecond⟩, -⟩ : (input.sentence.kindAt state.position = .gt ∧
        input.sentence.kindAt (state.position + 1) = .gt) ∧
          input.sentence.joinedAt (state.position + 1) = true := by
      simpa [Sentence.shiftAt] using hshift
    have hstep := gathers_token (isPlain_of_kind hfirst rfl)
    exact hstep.trans (gathers_token (isPlain_of_kind hsecond rfl))
  · split at h
    · rename_i hkind
      cases h
      exact gathers_token (isPlain_of_kind hkind rfl)
    · rename_i hkind
      cases h
      exact gathers_token (isPlain_of_kind hkind rfl)
    · obtain ⟨binary, hbinary, rfl⟩ := Option.map_eq_some_iff.mp h
      obtain ⟨hplain, hwidth⟩ := BinaryOp.isPlain_of_ofKind? hbinary
      rw [InfixOp.width, hwidth]
      exact gathers_token hplain

def CollectsExprs (nested : ExprLevel → Parse Expr) (input : Input) : Prop :=
  ∀ level state,
    (level = .initializer → input.sentence.kindAt state.position = .lBrace) →
      Ends (nested level) input state fun expr after =>
        input.sentence.Gathers [.node (.expr expr)] state after

theorem CollectsExprs.full (h : CollectsExprs nested input) :
    Collects (nested .full) input fun expr => [.node (.expr expr)] :=
  fun state => h .full state nofun

theorem CollectsExprs.unary (h : CollectsExprs nested input) :
    Collects (nested .unary) input fun expr => [.node (.expr expr)] :=
  fun state => h .unary state nofun

theorem CollectsExprs.initializer? (h : CollectsExprs nested input) :
    Collects (whenever (check .lBrace) (nested .initializer)) input
      fun items? => (items?.toList.map .expr).map .node := by
  intro state
  refine whenever_ends (fun hbrace => ?_) fun _ => .refl
  exact h .initializer state fun _ => by simpa using hbrace

theorem argument_collects (hnested : CollectsExprs nested input) :
    Collects (argument nested) input fun arg => [.node (.expr arg.value)] := by
  intro state
  unfold argument
  refine (advanceAny_collects (by decide) (by decide) state).bind
    fun modifier? after₁ hmodifier => ?_
  exact (hnested.full after₁).bind fun value after₂ hvalue => .pure (hmodifier.trans hvalue)

theorem argumentList_gathers (hnested : CollectsExprs nested input) {opening closing : TokenKind}
    (hkind : input.sentence.kindAt state.position = opening) (hopening : opening.isPlain = true)
    (hclosing : closing.isPlain = true) :
    Ends (argumentList nested closing) input state fun list after =>
      state.position < after.position ∧
        input.sentence.Gathers (list.nodes.map .node) state after := by
  have hargs : ∀ closed : Bool, Collects (if closed then pure [] else separated (argument nested))
      input fun args => (args.map fun arg => .expr arg.value).map .node := by
    intro closed before
    exact .ite (fun _ => .pure .refl) fun _ => separated_nodes (argument_collects hnested) before
  unfold argumentList
  refine (advance_gathers (isPlain_of_kind hkind hopening)).bind ?_
  rintro opening after₁ ⟨-, hnext, hopening⟩
  refine .ask fun closed _ => (hargs closed after₁).join fun args after₂ hargs => ?_
  refine (expect_collects hclosing after₂).bind fun closing? after₃ hclosing => ?_
  have hforward := (hargs.trans hclosing).forward
  exact .pure ⟨by omega, (hopening.trans hargs).behind hclosing⟩

theorem initializerElement_collects (hnested : CollectsExprs nested input) :
    Collects (initializerElement nested) input fun expr => [.node (.expr expr)] := by
  intro state
  refine .ask fun atBrace hbrace => hnested _ state fun hlevel => ?_
  cases atBrace with
  | true => simpa using hbrace
  | false => exact absurd hlevel (by decide)

theorem arrayInitializer_gathers (hnested : CollectsExprs nested input)
    (hbrace : input.sentence.kindAt state.position = .lBrace) :
    Ends (arrayInitializer nested) input state fun expr after =>
      input.sentence.Gathers [.node (.expr expr)] state after := by
  unfold arrayInitializer
  refine .position (.advance (by simp [hbrace]) ?_)
  refine (listed_nodes (initializerElement_collects hnested) _).bind
    fun elements after₁ helements => ?_
  refine (closing_gathers hbrace helements).bind ?_
  rintro _ after₂ ⟨hbody, -⟩
  exact (complete_gathers fun info _ => hbody).imp fun _ _ h => h.2

theorem typeArguments?_collects : CollectsSome typeArguments? input (·.entries) := by
  intro state
  unfold typeArguments?
  refine .checkIf (fun hlt => attempt_ends ?_) fun _ => .pure .refl
  unfold confirmedArguments
  refine (typeArguments_gathers type_collects (isPlain_of_kind hlt rfl)).bind
    fun args after hargs => ?_
  refine .ask fun follows _ => .ite (fun _ => .pure ?_) fun _ => .pure .refl
  simpa using hargs

/-! ## Primary expressions -/

theorem completeBehind {start : Nat} {make : ExprInfo → Expr} {front : ParseState}
    (hnext : front.position = origin.position + 1)
    (hfront : input.sentence.Gathers [] origin front)
    (h : ∀ info, input.sentence.Gathers (make info).entries front state) :
    Ends (complete start make) input state fun expr after =>
      origin.position < after.position ∧
        input.sentence.Gathers [.node (.expr expr)] origin after := by
  have hforward := (h default).forward
  refine (complete_gathers fun info _ => hfront.trans (h info)).imp ?_
  rintro expr after ⟨hat, hexpr⟩
  exact ⟨by omega, hexpr⟩

theorem parenthesized_gathers (hnested : CollectsExprs nested input)
    (hkind : input.sentence.kindAt state.position = .lParen) :
    Ends (parenthesized nested) input state fun expr after =>
      state.position < after.position ∧
        input.sentence.Gathers [.node (.expr expr)] state after := by
  unfold parenthesized
  refine .position ((advance_gathers (isPlain_of_kind hkind rfl)).bind ?_)
  rintro _ after₁ ⟨rfl, hnext, hopening⟩
  refine (hnested.full after₁).bind fun first after₂ hfirst => ?_
  refine (eat_collects rfl after₂).bind fun comma? after₃ hcomma => ?_
  cases comma? with
  | none =>
      refine (expect_collects rfl after₃).bind fun _ after₄ hclosing => ?_
      exact completeBehind hnext hopening fun info => hfirst.behind (hcomma.trans hclosing)
  | some comma =>
      have hforward := (hopening.trans (hfirst.behind hcomma)).forward
      have hnoted : Ends (note (.uses .tuples state.position)) input after₃ fun _ after =>
          input.sentence.Gathers [.node (.expr first)] after₁ after :=
        (hfirst.behind hcomma).noted rfl hforward
      refine hnoted.bind fun _ after₄ hfirst => ?_
      refine (separated_nodes hnested.full after₄).bind fun rest after₅ hrest => ?_
      refine (expect_collects rfl after₅).bind fun _ after₆ hclosing => ?_
      exact completeBehind hnext hopening fun info => (hfirst.trans hrest).behind hclosing

theorem sizedRank_gathers (hnested : CollectsExprs nested input)
    (hkind : input.sentence.kindAt state.position = .lBracket) :
    Ends (sizedRank nested) input state fun rank after =>
      input.sentence.Gathers (rank.nodes.map .node) state after := by
  unfold sizedRank
  refine .askIf (fun _ => ?_) fun _ => ?_
  · exact (arrayRank_gathers hkind).bind fun rank after hrank => .pure hrank
  · refine (advance_gathers (isPlain_of_kind hkind rfl)).bind ?_
    rintro opening after₁ ⟨-, -, hopening⟩
    refine (separated_nodes hnested.full after₁).bind fun sizes after₂ hsizes => ?_
    refine (expect_collects rfl after₂).bind fun closing? after₃ hclosing => ?_
    exact .pure ((hopening.trans hsizes).behind hclosing)

theorem sizedRanks_collect (hnested : CollectsExprs nested input) :
    Collects (many (whenever (check .lBracket) (sizedRank nested))) input
      fun ranks => (ranks.flatMap (·.nodes)).map .node := by
  have hrank : CollectsSome (whenever (check .lBracket) (sizedRank nested)) input
      fun rank => rank.nodes.map .node :=
    whenever_collects fun before hbracket => sizedRank_gathers hnested (by simpa using hbracket)
  simpa only [List.map_flatMap] using many_collects hrank

theorem argumentList?_collects (hnested : CollectsExprs nested input) :
    Collects (whenever (check .lParen) (argumentList nested .rParen)) input
      fun args? => (args?.toList.flatMap (·.nodes)).map .node := by
  intro state
  refine whenever_ends (fun hparen => ?_) fun _ => .refl
  have hkind : input.sentence.kindAt state.position = .lParen := by simpa using hparen
  refine (argumentList_gathers hnested hkind rfl rfl).imp fun args after h => ?_
  simpa using h.2

theorem creation_gathers (hnested : CollectsExprs nested input)
    (hkind : input.sentence.kindAt state.position = .newKw) :
    Ends (creation nested) input state fun expr after =>
      state.position < after.position ∧
        input.sentence.Gathers [.node (.expr expr)] state after := by
  unfold creation
  refine .position ((advance_gathers (isPlain_of_kind hkind rfl)).bind ?_)
  rintro keyword after₁ ⟨-, hnext, hkeyword⟩
  refine (type_entries after₁).bind fun type after₂ htype => ?_
  refine .checkIf (fun _ => ?_) fun _ => ?_
  · refine (sizedRanks_collect hnested after₂).bind fun ranks after₃ hranks => ?_
    refine (hnested.initializer? after₃).bind fun items? after₄ hitems => ?_
    refine completeBehind hnext hkeyword fun info => ?_
    simpa [Expr.entries, Expr.children] using htype.type.trans (hranks.trans hitems)
  · split
    · rename_i element ranks hsplit
      -- The ranks of the type become those of the creation.
      have hentries : type.entries = [.node (.type element)] := by
        cases type <;> simp [TypeSyntax.splitArray?] at hsplit
        obtain ⟨rfl, rfl⟩ := hsplit
        rfl
      have hnone : (ranks.map (·.toSized)).flatMap (·.nodes) = [] := by
        rw [List.flatMap_map]
        exact List.flatMap_eq_nil_iff.mpr fun rank _ => rfl
      have helement : input.sentence.Gathers [.node (.type element)] after₁ after₂ :=
        hentries ▸ htype
      refine (hnested.initializer? after₂).bind fun items? after₃ hitems => ?_
      have hexpr : input.sentence.Gathers
          (Expr.newArray default keyword element (ranks.map ArrayRank.toSized) items?).entries
          after₁ after₃ := by
        simpa [Expr.entries, Expr.children, hnone] using helement.trans hitems
      exact .skip (fun after => input.sentence.Gathers
          (Expr.newArray default keyword element (ranks.map ArrayRank.toSized) items?).entries
          after₁ after)
        (fun _ => hexpr.noted rfl (Nat.le_refl _)) (fun _ => hexpr)
        fun after₄ hexpr => completeBehind hnext hkeyword fun info => hexpr
    · refine (argumentList?_collects hnested after₂).bind fun args? after₃ hargs => ?_
      refine (hnested.initializer? after₃).bind fun items? after₄ hitems => ?_
      have hexpr : input.sentence.Gathers
          (Expr.newObject default keyword type args? items?).entries after₁ after₄ := by
        simpa [Expr.entries, Expr.children] using htype.type.trans (hargs.trans hitems)
      exact .skip (fun after => input.sentence.Gathers
          (Expr.newObject default keyword type args? items?).entries after₁ after)
        (fun _ => hexpr.noted rfl (Nat.le_refl _)) (fun _ => hexpr)
        fun after₅ hexpr => completeBehind hnext hkeyword fun info => hexpr

theorem defaultValue_gathers (hkind : input.sentence.kindAt state.position = .defaultKw) :
    Ends defaultValue input state fun expr after =>
      state.position < after.position ∧
        input.sentence.Gathers [.node (.expr expr)] state after := by
  unfold defaultValue
  refine .position ((advance_gathers (isPlain_of_kind hkind rfl)).bind ?_)
  rintro keyword after₁ ⟨-, hnext, hkeyword⟩
  refine (eat_collects rfl after₁).bind fun opening? after₂ hopening => ?_
  cases opening? with
  | none => exact completeBehind hnext hkeyword fun info => hopening
  | some opening =>
      refine (type_collects after₂).bind fun type after₃ htype => ?_
      refine (expect_collects rfl after₃).bind fun _ after₄ hclosing => ?_
      exact completeBehind hnext hkeyword fun info => hopening.trans (htype.trans hclosing)

theorem typeOf_gathers (hkind : input.sentence.kindAt state.position = .typeofKw) :
    Ends typeOf input state fun expr after =>
      state.position < after.position ∧
        input.sentence.Gathers [.node (.expr expr)] state after := by
  unfold typeOf
  refine .position ((advance_gathers (isPlain_of_kind hkind rfl)).bind ?_)
  rintro keyword after₁ ⟨-, hnext, hkeyword⟩
  refine (expect_collects rfl after₁).bind fun _ after₂ hopening => ?_
  refine (type_collects after₂).bind fun type after₃ htype => ?_
  refine (expect_collects rfl after₃).bind fun _ after₄ hclosing => ?_
  exact completeBehind hnext hkeyword fun info => hopening.trans (htype.trans hclosing)

theorem throwExpr_gathers (hnested : CollectsExprs nested input)
    (hkind : input.sentence.kindAt state.position = .throwKw) :
    Ends (throwExpr nested) input state fun expr after =>
      state.position < after.position ∧
        input.sentence.Gathers [.node (.expr expr)] state after := by
  unfold throwExpr
  refine .position (gated_gathers (isPlain_of_kind hkind rfl) fun after₁ hnext hkeyword => ?_)
  refine (hnested.full after₁).bind fun operand after₂ hoperand => ?_
  exact completeBehind hnext hkeyword fun info => hoperand

theorem name_gathers (hkind : input.sentence.kindAt state.position = .identifier) :
    Ends name input state fun expr after =>
      state.position < after.position ∧
        input.sentence.Gathers [.node (.expr expr)] state after := by
  unfold name
  refine .position ((advance_gathers (isPlain_of_kind hkind rfl)).bind ?_)
  rintro token after₁ ⟨-, hnext, htoken⟩
  refine (typeArguments?_collects after₁).bind fun args? after₂ hargs => ?_
  cases args? with
  | none => exact completeBehind hnext htoken fun info => hargs
  | some args =>
      refine completeBehind hnext htoken fun info => ?_
      simpa [Expr.entries] using hargs

theorem single_gathers {make : ExprInfo → Nat → Expr}
    (hkind : (input.sentence.kindAt state.position).isPlain = true)
    (hmake : ∀ info token, (make info token).entries = []) :
    Ends (single make) input state fun expr after =>
      state.position < after.position ∧
        input.sentence.Gathers [.node (.expr expr)] state after := by
  unfold single
  refine .position ((advance_gathers hkind).bind ?_)
  rintro token after₁ ⟨-, hnext, htoken⟩
  refine completeBehind hnext htoken fun info => ?_
  rw [hmake]
  exact .refl

theorem missingExpr_collects : Collects missingExpr input fun expr => [.node (.expr expr)] := by
  intro state
  unfold missingExpr
  have hfault : input.sentence.Gathers [.fault (.missingExpr state.position)] state
      { state with findings := .invalidTerm state.position :: state.findings } :=
    Gathers.refl.faulty _ rfl trivial (Nat.le_refl _)
  have hmissing : ∀ info : ExprInfo, info.range.start = state.position →
      input.sentence.Gathers (Expr.missing info).entries state
        { state with findings := .invalidTerm state.position :: state.findings } := by
    intro info hstart
    rw [Expr.entries, hstart]
    exact hfault
  exact .noteHere (.position ((complete_gathers hmissing).imp fun _ _ h => h.2))

theorem primary_gathers (hnested : CollectsExprs nested input) :
    Ends (primary nested) input state fun expr after =>
      ((input.sentence.kindAt state.position).startsPrimary = true →
          state.position < after.position) ∧
        input.sentence.Gathers [.node (.expr expr)] state after := by
  unfold primary
  refine .kind fun kind hkind => ?_
  split
  · exact (name_gathers hkind).imp fun _ _ h => ⟨fun _ => h.1, h.2⟩
  · exact (single_gathers (isPlain_of_kind hkind rfl) fun _ _ => rfl).imp
      fun _ _ h => ⟨fun _ => h.1, h.2⟩
  · exact (single_gathers (isPlain_of_kind hkind rfl) fun _ _ => rfl).imp
      fun _ _ h => ⟨fun _ => h.1, h.2⟩
  · exact (parenthesized_gathers hnested hkind).imp fun _ _ h => ⟨fun _ => h.1, h.2⟩
  · exact (creation_gathers hnested hkind).imp fun _ _ h => ⟨fun _ => h.1, h.2⟩
  · exact (defaultValue_gathers hkind).imp fun _ _ h => ⟨fun _ => h.1, h.2⟩
  · exact (typeOf_gathers hkind).imp fun _ _ h => ⟨fun _ => h.1, h.2⟩
  · exact (throwExpr_gathers hnested hkind).imp fun _ _ h => ⟨fun _ => h.1, h.2⟩
  · rename_i h₁ h₂ h₃ h₄ h₅ h₆ h₇ h₈
    refine .ite (fun hliteral => ?_) fun hliteral => .ite (fun hpredefined => ?_)
      fun hpredefined => ?_
    · have hplain := isPlain_of_kind hkind (TokenKind.isPlain_of_single (.inl hliteral))
      exact (single_gathers hplain fun _ _ => rfl).imp fun _ _ h => ⟨fun _ => h.1, h.2⟩
    · have hplain := isPlain_of_kind hkind (TokenKind.isPlain_of_single (.inr hpredefined))
      exact (single_gathers hplain fun _ _ => rfl).imp fun _ _ h => ⟨fun _ => h.1, h.2⟩
    · refine (missingExpr_collects state).imp fun expr after h => ⟨fun hstarts => ?_, h⟩
      rw [hkind] at hstarts
      unfold TokenKind.startsPrimary at hstarts
      split at hstarts <;> simp_all

/-! ## Suffixes and operators -/

def GrowsExpr (step : Expr → Parse (Option Expr)) (origin : ParseState) (input : Input) : Prop :=
  ∀ expr state, input.sentence.Gathers [.node (.expr expr)] origin state →
    Ends (step expr) input state fun longer? after =>
      state.position ≤ after.position ∧
        input.sentence.Gathers [.node (.expr (longer?.getD expr))] origin after

theorem grown_gathers {start : Nat} {make : ExprInfo → Expr} {expr : Expr} {front : ParseState}
    {behind : List Entry} (hexpr : input.sentence.Gathers [.node (.expr expr)] origin front)
    (hbehind : input.sentence.Gathers behind front state)
    (hmake : ∀ info, (make info).entries = .node (.expr expr) :: behind) :
    Ends (complete start make >>= fun longer => pure (some longer)) input state
      fun longer? after =>
        front.position ≤ after.position ∧
          input.sentence.Gathers [.node (.expr (longer?.getD expr))] origin after := by
  have hgrown : ∀ info, input.sentence.Gathers (make info).entries origin state := by
    intro info
    rw [hmake]
    exact hexpr.trans hbehind
  refine (complete_gathers fun info _ => hgrown info).bind ?_
  rintro longer after ⟨hat, hlonger⟩
  have hforward := hbehind.forward
  exact .pure ⟨by omega, hlonger⟩

theorem growExpr_gathers {step : Expr → Parse (Option Expr)} {expr : Expr}
    (hstep : GrowsExpr step origin input)
    (hexpr : input.sentence.Gathers [.node (.expr expr)] origin state) :
    Ends (grow step expr) input state fun expr after =>
      state.position ≤ after.position ∧
        input.sentence.Gathers [.node (.expr expr)] origin after := by
  refine grow_ends (fun expr : Expr => fun after => state.position ≤ after.position ∧
    input.sentence.Gathers [.node (.expr expr)] origin after) ?_ ⟨Nat.le_refl _, hexpr⟩
  rintro expr before ⟨hforward, hexpr⟩
  refine (hstep expr before hexpr).imp fun longer? after h => ?_
  cases longer? <;> exact ⟨Nat.le_trans hforward h.1, h.2⟩

theorem exprSuffix?_grows (hnested : CollectsExprs nested input) (start : Nat) :
    GrowsExpr (exprSuffix? nested start) origin input := by
  intro expr state hexpr
  unfold exprSuffix?
  refine .kind fun kind hkind => ?_
  split
  · refine (advance_gathers (isPlain_of_kind hkind rfl)).bind ?_
    rintro dot after₁ ⟨-, -, hdot⟩
    refine (expect_collects rfl after₁).bind fun name? after₂ hname => ?_
    have hargs : Collects (if name?.isSome then typeArguments? else pure none) input
        fun args? => args?.toList.flatMap (·.entries) :=
      fun before => .ite (fun _ => typeArguments?_collects before) fun _ => .pure .refl
    refine (hargs after₂).join fun args? after₃ hargs => ?_
    refine grown_gathers hexpr (hdot.trans (hname.trans hargs)) fun info => ?_
    cases args? <;> simp [Expr.entries, Expr.children]
  · refine (argumentList_gathers hnested hkind rfl rfl).bind ?_
    rintro args after₁ ⟨-, hargs⟩
    exact grown_gathers hexpr hargs fun _ => rfl
  · refine (argumentList_gathers hnested hkind rfl rfl).bind ?_
    rintro args after₁ ⟨-, hargs⟩
    exact grown_gathers hexpr hargs fun _ => rfl
  · split
    · rename_i op hop
      refine (advance_gathers (isPlain_of_kind hkind (StepOp.isPlain_of_ofKind? hop))).bind ?_
      rintro _ after₁ ⟨-, -, hop⟩
      exact grown_gathers hexpr hop fun _ => rfl
    · exact .pure ⟨Nat.le_refl _, hexpr⟩

theorem suffixed_gathers (hnested : CollectsExprs nested input) :
    Ends (suffixed nested) input state fun expr after =>
      ((input.sentence.kindAt state.position).startsPrimary = true →
          state.position < after.position) ∧
        input.sentence.Gathers [.node (.expr expr)] state after := by
  unfold suffixed
  refine .position ((primary_gathers hnested).bind ?_)
  rintro first after₁ ⟨hmoved, hfirst⟩
  refine (growExpr_gathers (exprSuffix?_grows hnested _) hfirst).imp ?_
  rintro expr after ⟨hforward, hexpr⟩
  exact ⟨fun hstarts => Nat.lt_of_lt_of_le (hmoved hstarts) hforward, hexpr⟩

theorem castHead?_gathers (hkind : input.sentence.kindAt state.position = .lParen) :
    Ends castHead? input state fun type? after =>
      match type? with
      | none => after = state
      | some type =>
          state.position < after.position ∧
            input.sentence.Gathers [.node (.type type)] state after := by
  have hanswer : Ends mayBeCast input state fun _ after => after = state := rfl
  unfold castHead?
  refine hanswer.bind ?_
  rintro answer _ rfl
  refine .ite (fun _ => attempt_ends ?_) fun _ => .pure rfl
  unfold castHead
  refine (advance_gathers (isPlain_of_kind hkind rfl)).bind ?_
  rintro _ after₁ ⟨-, hnext, hopening⟩
  refine (type_collects after₁).bind fun type after₂ htype => ?_
  refine .ite (fun _ => .pure rfl) fun _ => ?_
  refine (eat_collects rfl after₂).bind fun closing? after₃ hclosing => ?_
  cases closing? with
  | none => exact .pure rfl
  | some closing =>
      refine .ask fun follows _ => .ite (fun _ => .pure ?_) fun _ => .pure rfl
      have hforward := (htype.trans hclosing).forward
      exact ⟨by omega, hopening.trans (htype.trans hclosing)⟩

theorem unary_gathers (hnested : CollectsExprs nested input) :
    Ends (unary nested) input state fun expr after =>
      (TokenSet.expressionStart.contains (input.sentence.kindAt state.position) = true →
          state.position < after.position) ∧
        input.sentence.Gathers [.node (.expr expr)] state after := by
  unfold unary
  refine .position (.kind fun kind hkind => ?_)
  split
  · refine gated_gathers (isPlain_of_kind hkind rfl) fun after₁ hnext hkeyword => ?_
    refine (hnested.unary after₁).bind fun operand after₂ hoperand => ?_
    refine Ends.imp (completeBehind hnext hkeyword fun info => ?_) fun _ _ h => ⟨fun _ => h.1, h.2⟩
    exact hoperand
  · refine (castHead?_gathers hkind).bind fun type? after₁ htype => ?_
    cases type? with
    | none =>
        subst htype
        refine (suffixed_gathers hnested).imp fun expr after h => ⟨fun _ => h.1 ?_, h.2⟩
        rw [hkind]
        rfl
    | some type =>
        refine (hnested.unary after₁).bind fun operand after₂ hoperand => ?_
        refine (complete_gathers fun info _ => htype.2.trans hoperand).imp ?_
        rintro expr after ⟨hat, hexpr⟩
        have hforward := hoperand.forward
        exact ⟨fun _ => by omega, hexpr⟩
  · rename_i href _
    split
    · rename_i op hop
      refine (advance_gathers (isPlain_of_kind hkind (UnaryOp.isPlain_of_ofKind? hop))).bind ?_
      rintro _ after₁ ⟨-, hnext, hop⟩
      refine (hnested.unary after₁).bind fun operand after₂ hoperand => ?_
      refine Ends.imp (completeBehind hnext hop fun info => ?_) fun _ _ h => ⟨fun _ => h.1, h.2⟩
      exact hoperand
    · rename_i hop
      refine (suffixed_gathers hnested).imp fun expr after h => ⟨fun hstart => h.1 ?_, h.2⟩
      rw [hkind] at hstart ⊢
      exact TokenKind.startsPrimary_of_start hstart href hop

theorem infixStep?_grows (hnested : CollectsExprs nested input) (start least : Nat) :
    GrowsExpr (infixStep? nested start least) origin input := by
  intro left state hleft
  unfold infixStep?
  refine .ask fun op? hat => ?_
  cases op? with
  | none => exact .pure ⟨Nat.le_refl _, hleft⟩
  | some op =>
      refine .ite (fun _ => .pure ⟨Nat.le_refl _, hleft⟩) fun _ => ?_
      have hmove : Ends (moveTo fun _ index => index + op.width) input state fun _ after =>
          input.sentence.Gathers [] state after := gathers_operator hat
      refine hmove.bind fun _ after₁ hpassed => ?_
      cases op with
      | isTest | asTest =>
          refine (type_collects after₁).bind fun type after₂ htype => ?_
          exact grown_gathers hleft (hpassed.trans htype) fun _ => rfl
      | binary op =>
          refine (hnested (.binary op.rightLevel) after₁ nofun).bind fun right after₂ hright => ?_
          exact grown_gathers hleft (hpassed.trans hright) fun _ => rfl

def GathersFrom (input : Input) (state : ParseState) (expr : Expr) (after : ParseState) : Prop :=
  (TokenSet.expressionStart.contains (input.sentence.kindAt state.position) = true →
      state.position < after.position) ∧
    input.sentence.Gathers [.node (.expr expr)] state after

theorem binary_gathers (hnested : CollectsExprs nested input) (least : Nat) :
    Ends (binary nested least) input state (GathersFrom input state) := by
  unfold binary
  refine .position ((unary_gathers hnested).bind ?_)
  rintro first after₁ ⟨hmoved, hfirst⟩
  refine (growExpr_gathers (infixStep?_grows hnested _ least) hfirst).imp ?_
  rintro expr after ⟨hforward, hexpr⟩
  exact ⟨fun hstart => Nat.lt_of_lt_of_le (hmoved hstart) hforward, hexpr⟩

theorem completeFrom {start : Nat} {make : ExprInfo → Expr} {front : ParseState} {first : Expr}
    {behind : List Entry} (hfirst : GathersFrom input origin first front)
    (hbehind : input.sentence.Gathers behind front state)
    (hmake : ∀ info, (make info).entries = .node (.expr first) :: behind) :
    Ends (complete start make) input state (GathersFrom input origin) := by
  have hgathered : ∀ info, input.sentence.Gathers (make info).entries origin state := by
    intro info
    rw [hmake]
    exact hfirst.2.trans hbehind
  refine (complete_gathers fun info _ => hgathered info).imp ?_
  rintro expr after ⟨hat, hexpr⟩
  have hforward := hbehind.forward
  refine ⟨fun hstart => ?_, hexpr⟩
  have := hfirst.1 hstart
  omega

theorem conditional_gathers (hnested : CollectsExprs nested input) :
    Ends (conditional nested) input state (GathersFrom input state) := by
  unfold conditional
  refine .position ((binary_gathers hnested 1).bind fun condition after₁ hcondition => ?_)
  refine (eat_ends (by decide)).bind ?_
  rintro question? after₂ (⟨hyes, rfl, rfl⟩ | ⟨-, rfl, rfl⟩)
  · have hquestion := gathers_token (isPlain_of_kind hyes rfl)
    refine (hnested.full _).bind fun whenTrue after₃ htrue => ?_
    refine (expect_collects rfl after₃).bind fun _ after₄ hcolon => ?_
    refine (hnested.full after₄).bind fun whenFalse after₅ hfalse => ?_
    exact completeFrom hcondition (hquestion.trans (htrue.trans (hcolon.trans hfalse)))
      fun _ => rfl
  · exact .pure hcondition

theorem assignment_gathers (hnested : CollectsExprs nested input) :
    Ends (assignment nested) input state (GathersFrom input state) := by
  unfold assignment
  refine .position ((conditional_gathers hnested).bind fun target after₁ htarget => ?_)
  refine .kind fun kind hkind => ?_
  split
  · exact .pure htarget
  · rename_i op hop
    refine (advance_gathers (isPlain_of_kind hkind (AssignOp.isPlain_of_ofKind? hop))).bind ?_
    rintro _ after₂ ⟨-, -, hop⟩
    refine (hnested.full after₂).bind fun value after₃ hvalue => ?_
    exact completeFrom htarget (hop.trans hvalue) fun _ => rfl

theorem exprStep_collects (hnested : CollectsExprs nested input) :
    CollectsExprs (exprStep nested) input := by
  intro level state hlevel
  cases level with
  | full => exact (assignment_gathers hnested).imp fun _ _ h => h.2
  | binary least => exact (binary_gathers hnested least).imp fun _ _ h => h.2
  | unary => exact (unary_gathers hnested).imp fun _ _ h => h.2
  | initializer => exact arrayInitializer_gathers hnested (hlevel rfl)

theorem exprWithin_collects (n : Nat) : CollectsExprs (exprWithin n) input := by
  induction n with
  | zero => exact fun level state _ => missingExpr_collects state
  | succ n ih => exact exprStep_collects ih

theorem exprAt_collects : CollectsExprs exprAt input :=
  fun level state hlevel => .left (exprWithin_collects _ level state hlevel)

theorem expr_gathers : Ends expr input state (GathersFrom input state) := by
  refine .left ?_
  by_cases hsize : state.position < input.sentence.size
  · obtain ⟨n, hn⟩ := Nat.exists_eq_add_of_lt hsize
    have hleft : input.sentence.left state.position = n + 1 := by
      unfold Sentence.left
      omega
    rw [hleft]
    exact assignment_gathers (exprWithin_collects n)
  · have heof := Sentence.kindAt_eq_eof (Nat.le_of_not_lt hsize)
    refine (exprWithin_collects _ .full state nofun).imp fun expr after h => ⟨?_, h⟩
    rw [heof]
    exact fun hstart => absurd (TokenSet.expressionStart_eof.symm.trans hstart) (by decide)

theorem expr_collects : Collects expr input fun expr => [.node (.expr expr)] :=
  exprAt_collects.full

theorem variableValue_collects : Collects variableValue input fun expr => [.node (.expr expr)] :=
  initializerElement_collects exprAt_collects

end Parse
end TolerantSyntax
