import TolerantSyntax.Grammar.Expr
import TolerantSyntax.Proofs.Reads.Type

/-!
# Expressions are read as they stand

Every production of the expression grammar covers its step.  What is only tried leaves
nothing behind when it declines: no symbol taken, no finding, no expression.
-/

namespace TolerantSyntax

theorem StepOp.symbol_of_ofKind? {kind : TokenKind} {op : StepOp}
    (h : StepOp.ofKind? kind = some op) : kind = op.symbol := by
  unfold StepOp.ofKind? at h
  split at h <;> cases h <;> rfl

theorem UnaryOp.symbol_of_ofKind? {kind : TokenKind} {op : UnaryOp}
    (h : UnaryOp.ofKind? kind = some op) : kind = op.symbol := by
  unfold UnaryOp.ofKind? at h
  split at h <;> cases h <;> rfl

theorem AssignOp.symbol_of_ofKind? {kind : TokenKind} {op : AssignOp}
    (h : AssignOp.ofKind? kind = some op) : kind = op.symbol := by
  unfold AssignOp.ofKind? at h
  split at h <;> cases h <;> rfl

theorem BinaryOp.symbols_of_ofKind? {kind : TokenKind} {op : BinaryOp}
    (h : BinaryOp.ofKind? kind = some op) :
    op.symbols = [kind] ∧ op.width = 1 ∧ kind ≠ .eof := by
  unfold BinaryOp.ofKind? at h
  split at h <;> cases h <;> exact ⟨rfl, rfl, by decide⟩

def InfixOp.symbols : InfixOp → List TokenKind
  | .binary op => op.symbols
  | .isTest => [.isKw]
  | .asTest => [.asKw]

theorem Sentence.Covers.operator {sentence : Sentence} {before : ParseState} {op : InfixOp}
    (h : sentence.infixAt? before.position = some op) :
    sentence.Covers (op.symbols.map .symbol) before
      { before with position := before.position + op.width } := by
  unfold Sentence.infixAt? at h
  split at h
  · rename_i hshift
    cases h
    obtain ⟨⟨hfirst, hsecond⟩, -⟩ : (sentence.kindAt before.position = .gt ∧
        sentence.kindAt (before.position + 1) = .gt) ∧
          sentence.joinedAt (before.position + 1) = true := by
      simpa [Sentence.shiftAt] using hshift
    have hstep := Covers.symbol hfirst (by decide)
    exact hstep.trans (Covers.symbol hsecond (by decide))
  · split at h
    · rename_i hkind
      cases h
      exact .symbol hkind (by decide)
    · rename_i hkind
      cases h
      exact .symbol hkind (by decide)
    · obtain ⟨binary, hbinary, rfl⟩ := Option.map_eq_some_iff.mp h
      obtain ⟨hsymbols, hwidth, heof⟩ := BinaryOp.symbols_of_ofKind? hbinary
      have hstep : sentence.Covers [.symbol (sentence.kindAt before.position)] before _ :=
        .symbol rfl heof
      simpa [InfixOp.symbols, InfixOp.width, hsymbols, hwidth] using hstep

namespace Parse

variable {input : Input} {state origin : ParseState} {nested : ExprLevel → Parse Expr}

def ReadsExpr (nested : ExprLevel → Parse Expr) (input : Input) : Prop :=
  ∀ level state,
    (level = .initializer → input.sentence.kindAt state.position = .lBrace) →
      Ends (nested level) input state fun expr after =>
        input.sentence.Covers expr.pieces state after

theorem ReadsExpr.full (h : ReadsExpr nested input) :
    Reads (nested .full) input (·.pieces) := fun state => h .full state nofun

theorem ReadsExpr.unary (h : ReadsExpr nested input) :
    Reads (nested .unary) input (·.pieces) := fun state => h .unary state nofun

theorem ReadsExpr.initializer? (h : ReadsExpr nested input) :
    Reads (whenever (check .lBrace) (nested .initializer)) input exprPieces? := by
  intro state
  apply whenever_ends
  · intro hbrace
    exact h .initializer state fun _ => by simpa using hbrace
  · intro hbrace
    exact .refl

theorem argument_covers (hnested : ReadsExpr nested input) :
    Reads (argument nested) input (·.pieces) := by
  intro state
  unfold argument
  apply (advanceAny_covers (by decide) state).bind
  intro modifier? after₁ hmodifier
  apply (hnested.full after₁).bind
  intro value after₂ hvalue
  exact .pure (hmodifier.trans hvalue)

theorem argumentList_covers (hnested : ReadsExpr nested input) {closing : TokenKind}
    (hclosing : closing ≠ .eof) (hkind : input.sentence.kindAt state.position ≠ .eof) :
    Ends (argumentList nested closing) input state fun list after =>
      input.sentence.Covers list.pieces state after := by
  unfold argumentList
  apply (advance_covers hkind).bind
  rintro opening after₁ ⟨-, -, hopening⟩
  apply Ends.ask
  intro closed _
  have hargs : Ends (if closed then pure [] else separated (argument nested)) input after₁
      fun args after =>
        input.sentence.Covers (Piece.joined (argumentPieces args)) after₁ after := by
    apply Ends.ite
    · intro _
      exact .pure .refl
    · intro _
      apply (separated_covers (argument_covers hnested)).imp
      intro args after h
      rw [argumentPieces_eq]
      exact h.2
  apply hargs.join
  intro args after₂ hargs
  apply (expect_covers hclosing after₂).bind
  intro closing? after₃ hclosing
  exact .pure (hopening.trans (hargs.trans hclosing))

theorem initializerElement_covers (hnested : ReadsExpr nested input) :
    Reads (initializerElement nested) input (·.pieces) := by
  intro state
  unfold initializerElement
  apply Ends.ask
  intro atBrace hbrace
  apply hnested
  intro hlevel
  cases atBrace with
  | true => simpa using hbrace
  | false => exact absurd hlevel (by decide)

theorem arrayInitializer_covers (hnested : ReadsExpr nested input)
    (hbrace : input.sentence.kindAt state.position = .lBrace) :
    Ends (arrayInitializer nested) input state fun expr after =>
      input.sentence.Covers expr.pieces state after := by
  unfold arrayInitializer
  apply Ends.position
  apply (advance_implied hbrace (by decide)).bind
  intro _ after₁ hopening
  apply (listed_covers (initializerElement_covers hnested) after₁).bind
  intro elements after₂ helements
  apply (expect_implied (by decide) after₂).bind
  intro _ after₃ hclosing
  apply complete_covers
  intro info
  rw [Expr.pieces, exprPieces_eq]
  exact hopening.trans (helements.trans hclosing)

theorem confirmedArguments_covers (hkind : input.sentence.kindAt state.position ≠ .eof) :
    Ends confirmedArguments input state fun args? after =>
      ∀ args, args? = some args → input.sentence.Covers args.pieces state after := by
  unfold confirmedArguments
  apply (typeArguments_covers type_covers.reads hkind).bind
  intro args after hargs
  apply Ends.ask
  intro follows _
  apply Ends.ite
  · intro _
    apply Ends.pure
    rintro _ ⟨⟩
    exact hargs
  · intro _
    exact .pure nofun

theorem typeArguments?_covers : ReadsSome typeArguments? input (·.pieces) := by
  intro state
  unfold typeArguments?
  apply Ends.checkIf
  · intro hlt
    apply attempt_ends
    apply (confirmedArguments_covers (by simp [hlt])).imp
    intro args? after h
    cases args? with
    | none => rfl
    | some args => exact h args rfl
  · intro _
    exact .pure rfl

/-! ## Primary expressions -/

theorem parenthesized_covers (hnested : ReadsExpr nested input)
    (hparen : input.sentence.kindAt state.position = .lParen) :
    Ends (parenthesized nested) input state fun expr after =>
      input.sentence.Covers expr.pieces state after := by
  unfold parenthesized
  apply Ends.position
  apply (advance_implied hparen (by decide)).bind
  intro opening after₁ hopening
  apply (hnested.full after₁).bind
  intro first after₂ hfirst
  apply (eat_implied (by decide) after₂).bind
  intro comma? after₃ hcomma
  cases comma? with
  | none =>
      subst hcomma
      apply (expect_implied (by decide) after₃).bind
      intro _ after₄ hclosing
      apply complete_covers
      intro info
      exact hopening.trans (hfirst.trans hclosing)
  | some comma =>
      apply (noteUses_covers .tuples opening).bind
      intro _ after₄ huses
      apply (separated_covers hnested.full).bind
      rintro rest after₅ ⟨hne, hrest⟩
      apply (expect_implied (by decide) after₅).bind
      intro _ after₆ hclosing
      apply complete_covers
      intro info
      have helements := hfirst.trans (hcomma.trans (huses.trans hrest))
      have hjoined : Piece.joined (exprPieces (first :: rest)) =
          first.pieces ++ .symbol .comma :: Piece.joined (rest.map (·.pieces)) := by
        rw [exprPieces_eq, List.map_cons]
        cases rest with
        | nil => exact absurd rfl hne
        | cons next rest => rfl
      rw [Expr.pieces, hjoined]
      exact hopening.trans (helements.trans hclosing)

theorem sizedRank_covers (hnested : ReadsExpr nested input)
    (hkind : input.sentence.kindAt state.position ≠ .eof) :
    Ends (sizedRank nested) input state fun rank after =>
      state.position < after.position ∧
        (input.sentence.rankAt state.position = false → rank.sizes ≠ []) ∧
        input.sentence.Covers rank.pieces state after := by
  unfold sizedRank
  apply Ends.askIf
  · intro hrank
    apply (arrayRank_covers hkind).bind
    rintro rank after ⟨hnext, hcovers⟩
    exact .pure ⟨hnext, fun hno => absurd hrank (by simp [hno]), hcovers⟩
  · intro hrank
    apply (advance_covers hkind).bind
    rintro opening after₁ ⟨-, hnext, hopening⟩
    apply (separated_covers hnested.full).bind
    rintro sizes after₂ ⟨hne, hsizes⟩
    apply (expect_covers (by decide) after₂).bind
    intro closing? after₃ hclosing
    have hforward := (hsizes.trans hclosing).forward
    refine .pure ⟨by omega, fun _ => hne, ?_⟩
    rw [← exprPieces_eq] at hsizes
    have hempty : sizes.isEmpty = false := by simpa using hne
    rw [SizedRank.pieces, hempty]
    exact hopening.trans (hsizes.trans hclosing)

theorem sizedRanks_covers (hnested : ReadsExpr nested input)
    (hbracket : input.sentence.kindAt state.position = .lBracket) :
    Ends (many (whenever (check .lBracket) (sizedRank nested))) input state
      fun ranks after =>
        (input.sentence.rankAt state.position = false →
            ranks.all (·.sizes.isEmpty) = false) ∧
          input.sentence.Covers (rankPieces ranks) state after := by
  have hclosed : ∀ {ranks : List SizedRank} {before : ParseState},
      input.sentence.kindAt before.position ≠ .lBracket →
        (ranks = [] ∧ before = state ∨ ranks.all (·.sizes.isEmpty) = false) →
          ranks.all (·.sizes.isEmpty) = false := by
    rintro ranks before hno (⟨-, rfl⟩ | hranks)
    · exact absurd hbracket hno
    · exact hranks
  apply many_done (fun ranks after =>
    (input.sentence.rankAt state.position = false →
        ranks = [] ∧ after = state ∨ ranks.all (·.sizes.isEmpty) = false) ∧
      input.sentence.Covers (rankPieces ranks) state after)
  · rintro ranks before ⟨hranks, hcovers⟩
    apply whenever_ends
    · intro hyes
      have hkind : input.sentence.kindAt before.position = .lBracket := by simpa using hyes
      apply (sizedRank_covers hnested (by simp [hkind])).imp
      rintro rank after ⟨hnext, hsizes, hrank⟩
      refine ⟨⟨fun hno => .inr ?_, ?_⟩, hnext⟩
      · rcases hranks hno with ⟨rfl, rfl⟩ | hranks
        · simpa using hsizes hno
        · simp [List.all_append, hranks]
      · rw [rankPieces_eq] at hcovers ⊢
        simpa using hcovers.trans hrank
    · intro hyes
      exact ⟨fun hno => hclosed (by simpa using hyes) (hranks hno), hcovers⟩
  · rintro ranks before ⟨hranks, hcovers⟩ hsize
    have hkind : input.sentence.kindAt before.position ≠ .lBracket := by
      simp [Sentence.kindAt_eq_eof hsize]
    exact ⟨fun hno => hclosed hkind (hranks hno), hcovers⟩
  · exact ⟨fun _ => .inl ⟨rfl, rfl⟩, .refl⟩

theorem toSized_pieces (ranks : List ArrayRank) :
    rankPieces (ranks.map (·.toSized)) = ranks.flatMap (·.pieces) := by
  rw [rankPieces_eq, List.flatMap_map]
  rfl

theorem creation_covers (hnested : ReadsExpr nested input)
    (hkind : input.sentence.kindAt state.position ≠ .eof) :
    Ends (creation nested) input state fun expr after =>
      input.sentence.Covers expr.pieces state after := by
  unfold creation
  apply Ends.position
  apply (advance_covers hkind).bind
  rintro keyword after₁ ⟨-, -, hkeyword⟩
  apply (type_covers after₁).bind
  rintro type after₂ ⟨-, hmissing, htype⟩
  have hhead := hkeyword.trans htype
  apply Ends.checkIf
  · intro hbracket
    apply (sizedRanks_covers hnested hbracket).bind
    rintro ranks after₃ ⟨hsized, hranks⟩
    apply (hnested.initializer? after₃).bind
    intro items? after₄ hitems
    have hbody := (hhead.trans hranks).trans hitems
    apply complete_covers
    intro info
    rcases hmissing with hmissing | hrank
    · have hmem := missing_mem_pieces hmissing
      exact hbody.loud (hbody.errors_lt .missingType (by simp [hmem]))
    · rw [Expr.pieces, hsized hrank]
      simpa using hbody
  · intro _
    split
    · rename_i element ranks hsplit
      apply (hnested.initializer? after₂).bind
      intro items? after₃ hitems
      have hpieces : type.pieces = element.pieces ++ rankPieces (ranks.map (·.toSized)) := by
        cases type <;> simp [TypeSyntax.splitArray?] at hsplit
        obtain ⟨rfl, rfl⟩ := hsplit
        rw [TypeSyntax.pieces, toSized_pieces]
      rw [hpieces] at hhead
      have hbody := hhead.trans hitems
      apply Ends.skip fun after => input.sentence.Covers
        (Expr.newArray default keyword element (ranks.map (·.toSized)) items?).pieces state after
      · intro _
        exact (noteHere_covers _ hbody rfl).imp fun _ _ h => h.2
      · intro hsome
        simpa [Expr.pieces, hsome] using hbody
      · intro after₄ hexpr
        exact complete_covers fun info => hexpr
    · have hargs : Reads (whenever (check .lParen) (argumentList nested .rParen)) input
          argumentListPieces? := by
        intro before
        apply whenever_ends
        · intro hparen
          have hkind : input.sentence.kindAt before.position = .lParen := by
            simpa using hparen
          exact argumentList_covers hnested (by decide) (by simp [hkind])
        · intro _
          exact .refl
      apply (hargs after₂).bind
      intro args? after₃ hargs
      apply (hnested.initializer? after₃).bind
      intro items? after₄ hitems
      have hbody := (hhead.trans hargs).trans hitems
      apply Ends.skip fun after => input.sentence.Covers
        (Expr.newObject default keyword type args? items?).pieces state after
      · intro _
        exact (noteHere_covers _ hbody rfl).imp fun _ _ h => h.2
      · intro hsome
        simpa [Expr.pieces, hsome] using hbody
      · intro after₅ hexpr
        exact complete_covers fun info => hexpr

theorem defaultValue_covers (hkind : input.sentence.kindAt state.position ≠ .eof) :
    Ends defaultValue input state fun expr after =>
      input.sentence.Covers expr.pieces state after := by
  unfold defaultValue
  apply Ends.position
  apply (advance_covers hkind).bind
  rintro keyword after₁ ⟨-, -, hkeyword⟩
  apply (eat_implied (by decide) after₁).bind
  intro opening? after₂ hopening
  cases opening? with
  | none =>
      subst hopening
      exact complete_covers fun info => hkeyword
  | some opening =>
      apply (type_covers after₂).bind
      rintro type after₃ ⟨-, -, htype⟩
      apply (expect_implied (by decide) after₃).bind
      intro _ after₄ hclosing
      apply complete_covers
      intro info
      have hbody := hkeyword.trans (hopening.trans (htype.trans hclosing))
      simpa [Expr.pieces] using hbody

theorem typeOf_covers (hkind : input.sentence.kindAt state.position ≠ .eof) :
    Ends typeOf input state fun expr after =>
      input.sentence.Covers expr.pieces state after := by
  unfold typeOf
  apply Ends.position
  apply (advance_covers hkind).bind
  rintro keyword after₁ ⟨-, -, hkeyword⟩
  apply (expect_implied (by decide) after₁).bind
  intro _ after₂ hopening
  apply (type_covers after₂).bind
  rintro type after₃ ⟨-, -, htype⟩
  apply (expect_implied (by decide) after₃).bind
  intro _ after₄ hclosing
  apply complete_covers
  intro info
  exact hkeyword.trans (hopening.trans (htype.trans hclosing))

theorem throwExpr_covers (hnested : ReadsExpr nested input)
    (hkind : input.sentence.kindAt state.position ≠ .eof) :
    Ends (throwExpr nested) input state fun expr after =>
      input.sentence.Covers expr.pieces state after := by
  unfold throwExpr
  apply Ends.position
  apply (uses_covers .throwExpressions).bind
  rintro _ after₁ ⟨hat, huses⟩
  apply (advance_covers (by rw [hat]; exact hkind)).bind
  rintro keyword after₂ ⟨-, -, hkeyword⟩
  apply (hnested.full after₂).bind
  intro operand after₃ hoperand
  apply complete_covers
  intro info
  exact huses.trans (hkeyword.trans hoperand)

theorem name_covers (hkind : input.sentence.kindAt state.position ≠ .eof) :
    Ends name input state fun expr after =>
      input.sentence.Covers expr.pieces state after := by
  unfold name
  apply Ends.position
  apply (advance_covers hkind).bind
  rintro token after₁ ⟨-, -, htoken⟩
  apply (typeArguments?_covers after₁).bind
  intro args? after₂ hargs
  cases args? with
  | none =>
      subst hargs
      exact complete_covers fun info => htoken
  | some args => exact complete_covers fun info => htoken.trans hargs

theorem single_covers {make : ExprInfo → Nat → Expr}
    (hkind : input.sentence.kindAt state.position ≠ .eof)
    (hmake : ∀ info token, (make info token).pieces = [.token token]) :
    Ends (single make) input state fun expr after =>
      input.sentence.Covers expr.pieces state after := by
  unfold single
  apply Ends.position
  apply (advance_covers hkind).bind
  rintro token after₁ ⟨-, -, htoken⟩
  apply complete_covers
  intro info
  rw [hmake]
  exact htoken

theorem missingExpr_covers : Reads missingExpr input (·.pieces) := by
  intro state
  unfold missingExpr
  apply (noteHere_covers [.artefact .missingExpr] .refl rfl).bind
  rintro _ after₁ ⟨-, hmissing⟩
  apply Ends.position
  exact complete_covers fun info => hmissing

theorem primary_covers (hnested : ReadsExpr nested input) :
    Reads (primary nested) input (·.pieces) := by
  intro state
  unfold primary
  apply Ends.kind
  intro kind hkind
  split
  · exact name_covers (by simp [hkind])
  · exact single_covers (by simp [hkind]) fun info token => rfl
  · exact single_covers (by simp [hkind]) fun info token => rfl
  · exact parenthesized_covers hnested hkind
  · exact creation_covers hnested (by simp [hkind])
  · exact defaultValue_covers (by simp [hkind])
  · exact typeOf_covers (by simp [hkind])
  · exact throwExpr_covers hnested (by simp [hkind])
  · by_cases heof : kind = .eof
    · subst heof
      exact missingExpr_covers state
    · rw [← hkind] at heof
      apply Ends.ite
      · intro _
        exact single_covers heof fun info token => rfl
      · intro _
        apply Ends.ite
        · intro _
          exact single_covers heof fun info token => rfl
        · intro _
          exact missingExpr_covers state

/-! ## Suffixes and operators -/

theorem exprSuffix?_covers (hnested : ReadsExpr nested input) (start : Nat) {expr : Expr}
    (hexpr : input.sentence.Covers expr.pieces origin state) :
    Ends (exprSuffix? nested start expr) input state fun longer? after =>
      match longer? with
      | none => after = state
      | some longer => input.sentence.Covers longer.pieces origin after := by
  unfold exprSuffix?
  apply Ends.kind
  intro kind hkind
  split
  · apply (advance_covers (by simp [hkind])).bind
    rintro dot after₁ ⟨-, -, hdot⟩
    apply (expect_covers (by decide) after₁).bind
    intro name? after₂ hname
    have hargs : Ends (if name?.isSome then typeArguments? else pure none) input after₂
        fun args? after =>
          input.sentence.Covers (args?.toList.flatMap (·.pieces)) after₂ after := by
      apply Ends.ite
      · intro _
        exact typeArguments?_covers.reads after₂
      · intro _
        exact .pure .refl
    apply hargs.join
    intro args? after₃ hargs
    apply (complete_covers fun info => ?_).bind
    · intro longer after₄ hlonger
      exact .pure hlonger
    · exact hexpr.trans (hdot.trans (hname.trans hargs))
  · apply (argumentList_covers hnested (by decide) (by simp [hkind])).bind
    intro args after₁ hargs
    apply (complete_covers fun info => hexpr.trans hargs).bind
    intro longer after₂ hlonger
    exact .pure hlonger
  · apply (argumentList_covers hnested (by decide) (by simp [hkind])).bind
    intro args after₁ hargs
    apply (complete_covers fun info => hexpr.trans hargs).bind
    intro longer after₂ hlonger
    exact .pure hlonger
  · split
    · rename_i op hop
      have hsymbol := StepOp.symbol_of_ofKind? hop
      rw [hsymbol] at hkind
      apply (advance_implied hkind (by cases op <;> decide)).bind
      intro _ after₁ hop
      apply (complete_covers fun info => hexpr.trans hop).bind
      intro longer after₂ hlonger
      exact .pure hlonger
    · exact .pure rfl

theorem suffixed_covers (hnested : ReadsExpr nested input) :
    Reads (suffixed nested) input (·.pieces) := by
  intro state
  unfold suffixed
  apply Ends.position
  apply (primary_covers hnested state).bind
  intro first after₁ hfirst
  apply grow_ends fun expr : Expr => fun after =>
    input.sentence.Covers expr.pieces state after
  · intro expr before hexpr
    apply (exprSuffix?_covers hnested state.position hexpr).imp
    intro longer? after h
    cases longer? with
    | none => exact h ▸ hexpr
    | some longer => exact h
  · exact hfirst

def castPieces (type : TypeSyntax) : List Piece :=
  .symbol .lParen :: (type.pieces ++ [.symbol .rParen])

private theorem mayBeCast_ends {β : Type} {next : Bool → Parse β}
    {post : β → ParseState → Prop} (h : ∀ answer, Ends (next answer) input state post) :
    Ends (mayBeCast >>= next) input state post := h _

theorem castHead?_covers (hparen : input.sentence.kindAt state.position = .lParen) :
    Ends castHead? input state fun type? after =>
      match type? with
      | none => after = state
      | some type => input.sentence.Covers (castPieces type) state after := by
  unfold castHead?
  apply mayBeCast_ends
  intro answer
  apply Ends.ite
  · intro _
    apply attempt_ends
    unfold castHead
    apply (advance_implied hparen (by decide)).bind
    intro _ after₁ hopening
    apply (type_covers after₁).bind
    rintro type after₂ ⟨-, -, htype⟩
    apply Ends.ite
    · intro _
      exact .pure rfl
    · intro _
      apply (eat_implied (by decide) after₂).bind
      intro closing? after₃ hclosing
      cases closing? with
      | none => exact .pure rfl
      | some closing =>
          apply Ends.ask
          intro follows _
          apply Ends.ite
          · intro _
            exact .pure (hopening.trans (htype.trans hclosing))
          · intro _
            exact .pure rfl
  · intro _
    exact .pure rfl

theorem unary_covers (hnested : ReadsExpr nested input) :
    Reads (unary nested) input (·.pieces) := by
  intro state
  unfold unary
  apply Ends.position
  apply Ends.kind
  intro kind hkind
  split
  · apply (uses_covers .refLocalsAndReturns).bind
    rintro _ after₁ ⟨hat, huses⟩
    apply (advance_covers (by simp [hat, hkind])).bind
    rintro keyword after₂ ⟨-, -, hkeyword⟩
    apply (hnested.unary after₂).bind
    intro operand after₃ hoperand
    exact complete_covers fun info => huses.trans (hkeyword.trans hoperand)
  · apply (castHead?_covers hkind).bind
    intro type? after₁ htype
    cases type? with
    | none =>
        subst htype
        exact suffixed_covers hnested after₁
    | some type =>
        apply (hnested.unary after₁).bind
        intro operand after₂ hoperand
        apply complete_covers
        intro info
        have hcast := htype.trans hoperand
        simpa [Expr.pieces, castPieces] using hcast
  · split
    · rename_i op hop
      have hsymbol := UnaryOp.symbol_of_ofKind? hop
      rw [hsymbol] at hkind
      apply (advance_implied hkind (by cases op <;> decide)).bind
      intro _ after₁ hop
      apply (hnested.unary after₁).bind
      intro operand after₂ hoperand
      exact complete_covers fun info => hop.trans hoperand
    · exact suffixed_covers hnested state

theorem infixStep?_covers (hnested : ReadsExpr nested input) (start least : Nat)
    {left : Expr} (hleft : input.sentence.Covers left.pieces origin state) :
    Ends (infixStep? nested start least left) input state fun longer? after =>
      match longer? with
      | none => after = state
      | some longer => input.sentence.Covers longer.pieces origin after := by
  unfold infixStep?
  apply Ends.ask
  intro op? hop
  cases op? with
  | none => exact .pure rfl
  | some op =>
      apply Ends.ite
      · intro _
        exact .pure rfl
      · intro _
        have hmove : Ends (moveTo fun _ index => index + op.width) input state fun _ after =>
            input.sentence.Covers (op.symbols.map .symbol) state after := .operator hop
        apply hmove.bind
        intro _ after₁ hop
        cases op with
        | isTest =>
            apply (type_covers after₁).bind
            rintro type after₂ ⟨-, -, htype⟩
            apply (complete_covers fun info => hleft.trans (hop.trans htype)).bind
            intro longer after₃ hlonger
            exact .pure hlonger
        | asTest =>
            apply (type_covers after₁).bind
            rintro type after₂ ⟨-, -, htype⟩
            apply (complete_covers fun info => hleft.trans (hop.trans htype)).bind
            intro longer after₃ hlonger
            exact .pure hlonger
        | binary op =>
            apply (hnested (.binary op.rightLevel) after₁ nofun).bind
            intro right after₂ hright
            apply (complete_covers fun info => (hleft.trans hop).trans hright).bind
            intro longer after₃ hlonger
            exact .pure hlonger

theorem binary_covers (hnested : ReadsExpr nested input) (least : Nat) :
    Reads (binary nested least) input (·.pieces) := by
  intro state
  unfold binary
  apply Ends.position
  apply (unary_covers hnested state).bind
  intro first after₁ hfirst
  apply grow_ends fun expr : Expr => fun after =>
    input.sentence.Covers expr.pieces state after
  · intro left before hleft
    apply (infixStep?_covers hnested state.position least hleft).imp
    intro longer? after h
    cases longer? with
    | none => exact h ▸ hleft
    | some longer => exact h
  · exact hfirst

theorem conditional_covers (hnested : ReadsExpr nested input) :
    Reads (conditional nested) input (·.pieces) := by
  intro state
  unfold conditional
  apply Ends.position
  apply (binary_covers hnested 1 state).bind
  intro condition after₁ hcondition
  apply (eat_implied (by decide) after₁).bind
  intro question? after₂ hquestion
  cases question? with
  | none => exact .pure (hquestion ▸ hcondition)
  | some question =>
      apply (hnested.full after₂).bind
      intro whenTrue after₃ htrue
      apply (expect_implied (by decide) after₃).bind
      intro _ after₄ hcolon
      apply (hnested.full after₄).bind
      intro whenFalse after₅ hfalse
      apply complete_covers
      intro info
      exact hcondition.trans (hquestion.trans (htrue.trans (hcolon.trans hfalse)))

theorem assignment_covers (hnested : ReadsExpr nested input) :
    Reads (assignment nested) input (·.pieces) := by
  intro state
  unfold assignment
  apply Ends.position
  apply (conditional_covers hnested state).bind
  intro target after₁ htarget
  apply Ends.kind
  intro kind hkind
  split
  · exact .pure htarget
  · rename_i op hop
    have hsymbol := AssignOp.symbol_of_ofKind? hop
    rw [hsymbol] at hkind
    apply (advance_implied hkind (by cases op <;> decide)).bind
    intro _ after₂ hop
    apply (hnested.full after₂).bind
    intro value after₃ hvalue
    exact complete_covers fun info => htarget.trans (hop.trans hvalue)

theorem exprStep_covers (hnested : ReadsExpr nested input) :
    ReadsExpr (exprStep nested) input := by
  intro level state hbrace
  cases level with
  | full => exact assignment_covers hnested state
  | binary least => exact binary_covers hnested least state
  | unary => exact unary_covers hnested state
  | initializer => exact arrayInitializer_covers hnested (hbrace rfl)

theorem exprWithin_covers (n : Nat) : ReadsExpr (exprWithin n) input := by
  induction n with
  | zero =>
      intro level state _
      exact missingExpr_covers state
  | succ n ih => exact exprStep_covers ih

theorem exprAt_covers : ReadsExpr exprAt input := by
  intro level state hbrace
  unfold exprAt
  apply Ends.left
  exact exprWithin_covers _ level state hbrace

theorem expr_covers : Reads expr input (·.pieces) := exprAt_covers.full

theorem variableValue_covers : Reads variableValue input (·.pieces) :=
  initializerElement_covers exprAt_covers

end Parse
end TolerantSyntax
