import TolerantSyntax.Proofs.Keeps.Expr
import TolerantSyntax.Proofs.Progress.Paired
import TolerantSyntax.Proofs.Recovery.Expr

/-!
# Types and expressions side by side

A production that starts with a symbol of its own reads the parts inside it behind the symbol.
An element, an argument or an item of an initializer may start with the part itself; but such a
list is opened by a symbol.
-/

namespace TolerantSyntax.Parse

variable {input : Input} {state : ParseState} {floor : Nat}

section Types

variable {nested other : Parse TypeSyntax} (hnested : PairedFrom floor nested other input)
include hnested

theorem elementType_paired (named : Bool) :
    PairedFrom floor (elementType nested named) (elementType other named) input := by
  intro state hstate
  unfold elementType
  refine .after (.ask _) fun start after₁ h₁ => .after (.ask _) fun atRef after₂ h₂ => ?_
  refine .join (fun _ => .shared (.eat _)) (fun _ => .pure _) fun readonly? after₃ h₃ => ?_
  refine .after (.ask _) fun here after₄ h₄ => .after (.eat _) fun ref? after₅ h₅ => ?_
  refine .skip (.note _) fun after₆ h₆ => (hnested after₆ (by omega)).bind fun type after₇ _ => ?_
  exact .join (fun _ => .shared (.eat _)) (fun _ => .pure _) fun name? after₈ _ =>
    .shared ((Scripted.ask _).bind fun _ => .pure _)

theorem typeArguments_paired (hkind : input.sentence.kindAt state.position ≠ .eof)
    (hfloor : floor ≤ state.position + 1) :
    Paired (typeArguments nested) (typeArguments other) input state := by
  unfold typeArguments
  refine .advance hkind fun lt after₁ h₁ => ?_
  refine ((elementType_paired hnested false).separated after₁ (by omega)).bind fun args _ _ => ?_
  exact .shared ((Scripted.expect _).bind fun _ => .pure _)

theorem tupleType_paired (hkind : input.sentence.kindAt state.position ≠ .eof)
    (hfloor : floor ≤ state.position + 1) :
    Paired (tupleType nested) (tupleType other) input state := by
  unfold tupleType
  refine .ask fun start _ => .behind (uses_covers .tuples) ?_
  rintro _ after₁ ⟨hat, -⟩
  refine ⟨Nat.le_of_eq hat.symm, ?_⟩
  refine .advance (by rw [hat]; exact hkind) fun opening after₂ h₂ => ?_
  refine ((elementType_paired hnested true).separated after₂ (by omega)).bind fun elements _ _ => ?_
  refine .after (.expect _) fun closing? _ _ => .skip (.note _) fun _ _ => ?_
  exact .shared ((Scripted.ask _).bind fun _ => .pure _)

theorem simpleName_paired (hkind : input.sentence.kindAt state.position ≠ .eof)
    (hfloor : floor ≤ state.position + 1) :
    Paired (simpleName nested) (simpleName other) input state := by
  unfold simpleName
  refine .ask fun start _ => .advance hkind fun name after₁ h₁ => ?_
  refine .ask fun atLt hlt => .ite (fun hyes => ?_) fun _ => ?_
  · have hkind : input.sentence.kindAt after₁.position = .lt := by simpa [hyes] using hlt
    refine (typeArguments_paired hnested (by simp [hkind]) (by omega)).bind fun args _ _ => ?_
    exact .shared ((Scripted.ask _).bind fun _ => .pure _)
  · exact .shared ((Scripted.ask _).bind fun _ => .pure _)

theorem segment?_paired (start : Nat) (left : TypeSyntax) (hfloor : floor ≤ state.position + 1) :
    Paired (segment? nested start left) (segment? other start left) input state := by
  unfold segment?
  refine .ask fun atDot hdot => .ite (fun hyes => ?_) fun _ => .pure _
  obtain ⟨hdot, hname⟩ : input.sentence.kindAt state.position = .dot ∧
      input.sentence.kindAt (state.position + 1) = .identifier := by simpa [hyes] using hdot
  refine .behind (advance_covers (by simp [hdot])) ?_
  rintro dot after₁ ⟨-, hnext, -⟩
  refine ⟨by omega, ?_⟩
  refine (simpleName_paired hnested (by simp [hnext, hname]) (by omega)).bind fun right _ _ => ?_
  exact .shared ((Scripted.ask _).bind fun _ => .pure _)

theorem qualifiedName_paired (hkind : input.sentence.kindAt state.position ≠ .eof)
    (hfloor : floor ≤ state.position + 1) :
    Paired (qualifiedName nested) (qualifiedName other) input state := by
  unfold qualifiedName
  refine .ask fun start _ => (simpleName_paired hnested hkind hfloor).bind fun first after₁ h₁ => ?_
  have hsegments : ∀ left, PairedFrom after₁.position (segment? nested start left)
      (segment? other start left) input :=
    fun left before hbefore => segment?_paired hnested start left (by omega)
  exact PairedFrom.grow hsegments first after₁ (Nat.le_refl _)

theorem typeStep_paired (hfloor : floor ≤ state.position + 1) :
    Paired (typeStep nested) (typeStep other) input state := by
  unfold typeStep
  refine .ask fun start _ => .kind fun kind hkind => ?_
  split
  · exact (qualifiedName_paired hnested (by simp [hkind]) hfloor).bind fun name _ _ =>
      .shared (.grow (fun type => .typeSuffix? start type) name)
  · exact (tupleType_paired hnested (by simp [hkind]) hfloor).bind fun tuple _ _ =>
      .shared (.grow (fun type => .typeSuffix? start type) tuple)
  · refine .ite (fun _ => ?_) fun _ => .shared .missingType
    refine .after .advance fun keyword _ _ => .after (.ask _) fun range _ _ => ?_
    exact .shared (.grow (fun type => .typeSuffix? start type) _)

end Types

/-! ## Expressions -/

section Exprs

variable {nested other : ExprLevel → Parse Expr}

def PairedExprs (floor : Nat) (nested other : ExprLevel → Parse Expr) (input : Input) : Prop :=
  ∀ level state, floor ≤ state.position →
    (level = .initializer → input.sentence.kindAt state.position = .lBrace) →
      Paired (nested level) (other level) input state

theorem PairedExprs.of_keys
    (h : ∀ level, PairedFrom floor (nested level) (other level) input) :
    PairedExprs floor nested other input := fun level state hstate _ => h level state hstate

variable (hnested : PairedExprs floor nested other input)
include hnested

theorem PairedExprs.full : PairedFrom floor (nested .full) (other .full) input :=
  fun state hstate => hnested .full state hstate nofun

theorem PairedExprs.unary : PairedFrom floor (nested .unary) (other .unary) input :=
  fun state hstate => hnested .unary state hstate nofun

theorem PairedExprs.initializer? :
    PairedFrom floor (whenever (check .lBrace) (nested .initializer))
      (whenever (check .lBrace) (other .initializer)) input :=
  fun state hstate => .whenever fun hbrace =>
    hnested .initializer state hstate fun _ => by simpa using hbrace

theorem argument_paired : PairedFrom floor (argument nested) (argument other) input := by
  intro state hstate
  unfold argument
  refine .after (.whenever (.ask _) .advance) fun modifier? after₁ h₁ => ?_
  exact (hnested.full after₁ (by omega)).bind fun value _ _ => .pure _

theorem argumentList_stepped (closing : TokenKind)
    (hkind : input.sentence.kindAt state.position ≠ .eof) (hfloor : floor ≤ state.position + 1) :
    Stepped (argumentList nested closing) (argumentList other closing) input state := by
  unfold argumentList
  refine .advance hkind fun opening after₁ h₁ => .ask fun closed _ => ?_
  refine .join (fun _ => .pure _)
    (fun _ => (argument_paired hnested).separated after₁ (by omega)) fun args _ _ => ?_
  exact .shared ((Scripted.expect _).bind fun _ => .pure _)

theorem initializerElement_paired :
    PairedFrom floor (initializerElement nested) (initializerElement other) input := by
  intro state hstate
  unfold initializerElement
  refine .ask fun atBrace hbrace => hnested _ state hstate fun hlevel => ?_
  cases atBrace with
  | true => simpa using hbrace
  | false => cases hlevel

theorem arrayInitializer_paired (hkind : input.sentence.kindAt state.position ≠ .eof)
    (hfloor : floor ≤ state.position + 1) :
    Paired (arrayInitializer nested) (arrayInitializer other) input state := by
  unfold arrayInitializer
  refine .ask fun start _ => .advance hkind fun opening after₁ h₁ => ?_
  refine ((initializerElement_paired hnested).listed .rBrace after₁ (by omega)).bind
    fun elements _ _ => ?_
  exact .shared ((Scripted.expect _).bind fun _ => .complete _ _)

theorem parenthesized_paired (hkind : input.sentence.kindAt state.position ≠ .eof)
    (hfloor : floor ≤ state.position + 1) :
    Paired (parenthesized nested) (parenthesized other) input state := by
  unfold parenthesized
  refine .ask fun start _ => .advance hkind fun opening after₁ h₁ => ?_
  refine (hnested.full after₁ (by omega)).bind fun first after₂ h₂ => ?_
  refine .after (.eat _) fun comma? after₃ h₃ => ?_
  cases comma? with
  | none => exact .shared ((Scripted.expect _).bind fun _ => .complete _ _)
  | some comma =>
      refine .after (.note _) fun _ after₄ h₄ => ?_
      refine (hnested.full.separated after₄ (by omega)).bind fun rest _ _ => ?_
      exact .shared ((Scripted.expect _).bind fun _ => .complete _ _)

theorem sizedRank_paired (hkind : input.sentence.kindAt state.position ≠ .eof)
    (hfloor : floor ≤ state.position + 1) :
    Paired (sizedRank nested) (sizedRank other) input state := by
  unfold sizedRank
  refine .ask fun atRank _ => .ite (fun _ => .shared (Scripted.arrayRank.bind fun _ => .pure _))
    fun _ => .advance hkind fun opening after₁ h₁ => ?_
  refine (hnested.full.separated after₁ (by omega)).bind fun sizes _ _ => ?_
  exact .shared ((Scripted.expect _).bind fun _ => .pure _)

theorem sizedRanks_paired :
    PairedFrom floor (many (whenever (check .lBracket) (sizedRank nested)))
      (many (whenever (check .lBracket) (sizedRank other))) input := by
  refine PairedFrom.many fun state hstate => .whenever fun hbracket => ?_
  have hkind : input.sentence.kindAt state.position = .lBracket := by simpa using hbracket
  exact sizedRank_paired hnested (by simp [hkind]) (by omega)

theorem creation_paired (hkind : input.sentence.kindAt state.position ≠ .eof)
    (hfloor : floor ≤ state.position + 1) :
    Paired (creation nested) (creation other) input state := by
  unfold creation
  refine .ask fun start _ => .advance hkind fun keyword after₁ h₁ => ?_
  refine .after .type fun type after₂ h₂ => .ask fun atBracket _ => .ite (fun _ => ?_) fun _ => ?_
  · refine (sizedRanks_paired hnested after₂ (by omega)).bind fun ranks after₃ h₃ => ?_
    exact (hnested.initializer? after₃ (by omega)).bind fun items? _ _ => .shared (.complete _ _)
  · split
    · refine (hnested.initializer? after₂ (by omega)).bind fun items? _ _ => ?_
      exact .skip (.noteHere _) fun _ _ => .shared (.complete _ _)
    · have hargs : Paired (whenever (check .lParen) (argumentList nested .rParen))
          (whenever (check .lParen) (argumentList other .rParen)) input after₂ := by
        refine .whenever fun hparen => ?_
        have hkind : input.sentence.kindAt after₂.position = .lParen := by simpa using hparen
        exact (argumentList_stepped hnested _ (by simp [hkind]) (by omega)).paired
      refine hargs.bind fun args? after₃ h₃ => ?_
      refine (hnested.initializer? after₃ (by omega)).bind fun items? _ _ => ?_
      exact .skip (.noteHere _) fun _ _ => .shared (.complete _ _)

theorem throwExpr_paired (hkind : input.sentence.kindAt state.position ≠ .eof)
    (hfloor : floor ≤ state.position + 1) :
    Paired (throwExpr nested) (throwExpr other) input state := by
  unfold throwExpr
  refine .ask fun start _ => .behind (uses_covers .throwExpressions) ?_
  rintro _ after₁ ⟨hat, -⟩
  refine ⟨Nat.le_of_eq hat.symm, ?_⟩
  refine .advance (by rw [hat]; exact hkind) fun keyword after₂ h₂ => ?_
  exact (hnested.full after₂ (by omega)).bind fun operand _ _ => .shared (.complete _ _)

theorem primary_paired (hfloor : floor ≤ state.position + 1) :
    Paired (primary nested) (primary other) input state := by
  unfold primary
  refine .kind fun kind hkind => ?_
  split
  · exact .shared .name
  · exact .shared (.single _)
  · exact .shared (.single _)
  · exact parenthesized_paired hnested (by simp [hkind]) hfloor
  · exact creation_paired hnested (by simp [hkind]) hfloor
  · exact .shared .defaultValue
  · exact .shared .typeOf
  · exact throwExpr_paired hnested (by simp [hkind]) hfloor
  · exact .shared (.ite (.single _) (.ite (.single _) .missingExpr))

theorem exprSuffix?_paired (start : Nat) (expr : Expr) (hfloor : floor ≤ state.position + 1) :
    Paired (exprSuffix? nested start expr) (exprSuffix? other start expr) input state := by
  unfold exprSuffix?
  refine .kind fun kind hkind => ?_
  split
  · refine .after .advance fun dot _ _ => .after (.expect _) fun name? _ _ => ?_
    exact .join (fun _ => .shared .typeArguments?) (fun _ => .pure _) fun args? _ _ =>
      .shared ((Scripted.complete _ _).bind fun _ => .pure _)
  · exact (argumentList_stepped hnested .rParen (by simp [hkind]) hfloor).paired.bind
      fun args _ _ => .shared ((Scripted.complete _ _).bind fun _ => .pure _)
  · exact (argumentList_stepped hnested .rBracket (by simp [hkind]) hfloor).paired.bind
      fun args _ _ => .shared ((Scripted.complete _ _).bind fun _ => .pure _)
  · split
    · exact .shared (Scripted.advance.bind fun _ => (Scripted.complete _ _).bind fun _ => .pure _)
    · exact .pure _

theorem suffixed_paired (hfloor : floor ≤ state.position + 1) :
    Paired (suffixed nested) (suffixed other) input state := by
  unfold suffixed
  refine .ask fun start _ => (primary_paired hnested hfloor).bind fun first after₁ h₁ => ?_
  have hsuffixes : ∀ expr, PairedFrom after₁.position (exprSuffix? nested start expr)
      (exprSuffix? other start expr) input :=
    fun expr before hbefore => exprSuffix?_paired hnested start expr (by omega)
  exact PairedFrom.grow hsuffixes first after₁ (Nat.le_refl _)

theorem unary_paired (hfloor : floor ≤ state.position + 1) :
    Paired (unary nested) (unary other) input state := by
  unfold unary
  refine .ask fun start _ => .kind fun kind hkind => ?_
  split
  · refine .behind (uses_covers .refLocalsAndReturns) ?_
    rintro _ after₁ ⟨hat, -⟩
    refine ⟨Nat.le_of_eq hat.symm, ?_⟩
    refine .advance (by simp [hat, hkind]) fun keyword after₂ h₂ => ?_
    exact (hnested.unary after₂ (by omega)).bind fun operand _ _ => .shared (.complete _ _)
  · refine .behind (castHead?_gathers hkind) fun type? after₁ hhead => ?_
    cases type? with
    | none =>
        subst hhead
        exact ⟨Nat.le_refl _, suffixed_paired hnested hfloor⟩
    | some type =>
        obtain ⟨hmoved, -⟩ := hhead
        refine ⟨by omega, (hnested.unary after₁ (by omega)).bind fun operand _ _ => ?_⟩
        exact .shared (.complete _ _)
  · split
    · rename_i op hop
      have hplain := hkind ▸ UnaryOp.isPlain_of_ofKind? hop
      refine .advance (TokenKind.ne_of_isPlain hplain).1 fun _ after₁ h₁ => ?_
      exact (hnested.unary after₁ (by omega)).bind fun operand _ _ => .shared (.complete _ _)
    · exact suffixed_paired hnested hfloor

theorem infixStep?_paired (start least : Nat) (left : Expr)
    (hfloor : floor ≤ state.position + 1) :
    Paired (infixStep? nested start least left) (infixStep? other start least left)
      input state := by
  unfold infixStep?
  refine .ask fun op? hop => ?_
  cases op? with
  | none => exact .pure _
  | some op =>
      refine .ite (fun _ => .pure _) fun _ => ?_
      have hmove : Ends (moveTo fun _ index => index + op.width) input state fun _ after =>
          after.position = state.position + op.width := rfl
      refine .behind hmove fun _ after₁ hat => ?_
      have hwidth := op.width_pos
      refine ⟨by omega, ?_⟩
      cases op with
      | isTest | asTest =>
          refine .after .type fun type _ _ => ?_
          exact .shared ((Scripted.complete _ _).bind fun _ => .pure _)
      | binary op =>
          refine (hnested (.binary op.rightLevel) after₁ (by omega) nofun).bind fun right _ _ => ?_
          exact .shared ((Scripted.complete _ _).bind fun _ => .pure _)

theorem binary_paired (least : Nat) (hfloor : floor ≤ state.position + 1) :
    Paired (binary nested least) (binary other least) input state := by
  unfold binary
  refine .ask fun start _ => (unary_paired hnested hfloor).bind fun first after₁ h₁ => ?_
  have hsteps : ∀ left, PairedFrom after₁.position (infixStep? nested start least left)
      (infixStep? other start least left) input :=
    fun left before hbefore => infixStep?_paired hnested start least left (by omega)
  exact PairedFrom.grow hsteps first after₁ (Nat.le_refl _)

theorem conditional_paired (hfloor : floor ≤ state.position + 1) :
    Paired (conditional nested) (conditional other) input state := by
  unfold conditional
  refine .ask fun start _ => (binary_paired hnested 1 hfloor).bind fun condition after₁ h₁ => ?_
  refine .eat (by decide) (fun question after₂ h₂ => ?_) (.pure _)
  refine (hnested.full after₂ (by omega)).bind fun whenTrue after₃ h₃ => ?_
  refine .after (.expect _) fun colon? after₄ h₄ => ?_
  exact (hnested.full after₄ (by omega)).bind fun whenFalse _ _ => .shared (.complete _ _)

theorem assignment_paired (hfloor : floor ≤ state.position + 1) :
    Paired (assignment nested) (assignment other) input state := by
  unfold assignment
  refine .ask fun start _ => (conditional_paired hnested hfloor).bind fun target after₁ h₁ => ?_
  refine .kind fun kind hkind => ?_
  split
  · exact .pure _
  · rename_i op hop
    have hplain := hkind ▸ AssignOp.isPlain_of_ofKind? hop
    refine .advance (TokenKind.ne_of_isPlain hplain).1 fun _ after₂ h₂ => ?_
    exact (hnested.full after₂ (by omega)).bind fun value _ _ => .shared (.complete _ _)

theorem exprStep_paired (level : ExprLevel)
    (hlevel : level = .initializer → input.sentence.kindAt state.position = .lBrace)
    (hfloor : floor ≤ state.position + 1) :
    Paired (exprStep nested level) (exprStep other level) input state := by
  cases level with
  | full => exact assignment_paired hnested hfloor
  | binary least => exact binary_paired hnested least hfloor
  | unary => exact unary_paired hnested hfloor
  | initializer => exact arrayInitializer_paired hnested (by simp [hlevel rfl]) hfloor

end Exprs
end TolerantSyntax.Parse
