import TolerantSyntax.Proofs.Progress.Expr
import TolerantSyntax.Proofs.Progress.Member
import TolerantSyntax.Proofs.Progress.Recursion

/-!
# The recursions of the grammar

A production calls the ones in front of it, and those behind it only through what it is given.  So
the grammar recurs in four ways: a type in a type, an expression in an expression, a statement in
a statement, a member list in a member list.  All of them go forward.
-/

namespace TolerantSyntax.Parse

variable {κ α β : Type} {input : Input} {state : ParseState}

theorem grow_ended {step : α → Parse (Option α)} {value : α}
    (hleft : input.sentence.left state.position = 0) :
    grow step value input state = (value, state) := by
  have hgrow : grow step value input state =
      growWithin step (input.sentence.left state.position) value input state := rfl
  rw [hgrow, hleft]
  rfl

theorem typeStep_ended (nested : Parse TypeSyntax)
    (hkind : input.sentence.kindAt state.position = .eof) :
    typeStep nested input state = missingType input state := by
  have hends : Ends (typeStep nested) input state fun type after =>
      (type, after) = missingType input state := by
    unfold typeStep
    refine .position (.kind fun kind heq => ?_)
    obtain rfl := heq.symm.trans hkind
    rfl
  exact hends

section Exprs

def EndsMissing (parse : Parse Expr) (input : Input) (state : ParseState) : Prop :=
  Ends parse input state fun expr after => (expr, after) = missingExpr input state

variable (nested : ExprLevel → Parse Expr) (hleft : input.sentence.left state.position = 0)
include hleft

theorem suffixed_ended : EndsMissing (suffixed nested) input state := by
  have hprimary : EndsMissing (primary nested) input state := by
    unfold primary
    refine .kind fun kind heq => ?_
    obtain rfl := heq.symm.trans (Sentence.kindAt_of_left hleft)
    rfl
  unfold suffixed
  refine .position (hprimary.bind ?_)
  rintro _ _ ⟨⟩
  exact grow_ended hleft

theorem unary_ended : EndsMissing (unary nested) input state := by
  unfold unary
  refine .position (.kind fun kind heq => ?_)
  obtain rfl := heq.symm.trans (Sentence.kindAt_of_left hleft)
  exact suffixed_ended nested hleft

theorem binary_ended (least : Nat) : EndsMissing (binary nested least) input state := by
  unfold binary
  refine .position ((unary_ended nested hleft).bind ?_)
  rintro _ _ ⟨⟩
  exact grow_ended hleft

theorem conditional_ended : EndsMissing (conditional nested) input state := by
  unfold conditional
  refine .position ((binary_ended nested hleft 1).bind ?_)
  rintro _ _ ⟨⟩
  refine (eat_ends (by decide)).bind ?_
  rintro question? after (⟨hyes, -, -⟩ | ⟨-, rfl, rfl⟩)
  · exact absurd ((Sentence.kindAt_of_left hleft).symm.trans hyes) (by decide)
  · rfl

theorem assignment_ended : EndsMissing (assignment nested) input state := by
  unfold assignment
  refine .position ((conditional_ended nested hleft).bind ?_)
  rintro _ _ ⟨⟩
  refine .kind fun kind heq => ?_
  obtain rfl := heq.symm.trans (Sentence.kindAt_of_left hleft)
  rfl

theorem exprStep_ended (level : ExprLevel) (hlevel : level ≠ .initializer) :
    exprStep nested level input state = missingExpr input state := by
  cases level with
  | full => exact assignment_ended nested hleft
  | binary least => exact binary_ended nested hleft least
  | unary => exact unary_ended nested hleft
  | initializer => exact absurd rfl hlevel

end Exprs

theorem stmtStep_ended (nested : Parse Stmt)
    (hkind : input.sentence.kindAt state.position = .eof) :
    stmtStep nested input state = skippedStmt input state := by
  have hends : Ends (stmtStep nested) input state fun stmt after =>
      (stmt, after) = skippedStmt input state := by
    unfold stmtStep
    refine .kind fun kind heq => ?_
    obtain rfl := heq.symm.trans hkind
    refine .ite (fun _ => rfl) fun hstart => ?_
    simp [TokenSet.expressionStart_eof] at hstart
  exact hends

theorem many_ended {item : Parse (Option α)} (hleft : input.sentence.left state.position = 0) :
    many item input state = ([], state) := by
  have hmany : many item input state =
      manyWithin item (input.sentence.left state.position) input state := rfl
  rw [hmany, hleft]
  rfl

/-! ## Recursions and their elements -/

namespace Recursion

def types : Recursion Unit TypeSyntax where
  opens _ _ := True
  step nested _ := typeStep (nested ())
  within n _ := typeWithin n

def exprs : Recursion ExprLevel Expr where
  opens level kind := level = .initializer → kind = .lBrace
  step := exprStep
  within := exprWithin

def stmts : Recursion Unit Stmt where
  opens _ _ := True
  step nested _ := stmtStep (nested ())
  within n _ := stmtWithin n

def members : Recursion ParseContext (List Member) where
  opens _ _ := True
  step nested context := Parse.many (whenever (hasMember context) (someMember nested context))
  within := membersWithin

theorem types_rising : types.Rising input where
  within_succ _ := rfl
  onward_zero _ := Scripted.missingType.onward .none
  paired _ _ _ _ _ hnested :=
    typeStep_paired (fun before hbefore => hnested () before hbefore trivial) (Nat.le_refl _)
  ended _ _ _ _ hleft := typeStep_ended _ (Sentence.kindAt_of_left hleft)

theorem exprs_rising : exprs.Rising input where
  within_succ _ := rfl
  onward_zero _ := Scripted.missingExpr.onward .none
  paired _ _ level _ hlevel hnested :=
    exprStep_paired (fun inner before hbefore => hnested inner before hbefore) level hlevel
      (Nat.le_refl _)
  ended nested level _ hlevel hleft := by
    refine exprStep_ended nested hleft level fun hinitializer => ?_
    have hbrace := hlevel hinitializer
    rw [Sentence.kindAt_of_left hleft] at hbrace
    cases hbrace

theorem stmts_rising : stmts.Rising input where
  within_succ _ := rfl
  onward_zero _ := Scripted.skippedStmt.onward .none
  paired _ _ _ _ _ hnested :=
    stmtStep_paired (fun before hbefore => hnested () before hbefore trivial) (Nat.le_refl _)
  ended _ _ _ _ hleft := stmtStep_ended _ (Sentence.kindAt_of_left hleft)

theorem members_rising : members.Rising input where
  within_succ _ := rfl
  onward_zero _ _ := Nat.le_refl _
  paired _ _ context _ _ hnested :=
    memberList_paired (fun inner before hbefore => hnested inner before hbefore trivial) context
      (Nat.le_refl _)
  ended _ _ _ _ hleft := many_ended hleft

end Recursion

/-- The productions that look before they read a part, as they are given how to. -/
inductive Recursive : {κ β α : Type} → ((κ → Parse β) → Parse α) → Prop where
  | segment? (start : Nat) (left : TypeSyntax) :
      Recursive fun nested : Unit → Parse TypeSyntax => segment? (nested ()) start left
  | typeStep : Recursive fun nested : Unit → Parse TypeSyntax => typeStep (nested ())
  | primary : Recursive primary
  | exprSuffix? (start : Nat) (expr : Expr) :
      Recursive fun nested => exprSuffix? nested start expr
  | suffixed : Recursive suffixed
  | unary : Recursive unary
  | infixStep? (start least : Nat) (left : Expr) :
      Recursive fun nested => infixStep? nested start least left
  | binary (least : Nat) : Recursive fun nested => binary nested least
  | conditional : Recursive conditional
  | assignment : Recursive assignment
  | stmtStep : Recursive fun nested : Unit → Parse Stmt => stmtStep (nested ())
  | declaredMember (context : ParseContext) (head : MemberHead) :
      Recursive fun nested => declaredMember nested context head
  | member (context : ParseContext) : Recursive fun nested => member nested context
  | someMember (context : ParseContext) : Recursive fun nested => someMember nested context
  | memberList (context : ParseContext) :
      Recursive fun nested => many (whenever (hasMember context) (someMember nested context))

/-- The productions that take their first symbol without a look: they are read where it is. -/
inductive Led : {κ β α : Type} → ((κ → Parse β) → Parse α) → Prop where
  | typeArguments : Led fun nested : Unit → Parse TypeSyntax => typeArguments (nested ())
  | tupleType : Led fun nested : Unit → Parse TypeSyntax => tupleType (nested ())
  | simpleName : Led fun nested : Unit → Parse TypeSyntax => simpleName (nested ())
  | qualifiedName : Led fun nested : Unit → Parse TypeSyntax => qualifiedName (nested ())
  | argumentList (closing : TokenKind) : Led fun nested => argumentList nested closing
  | arrayInitializer : Led arrayInitializer
  | parenthesized : Led parenthesized
  | sizedRank : Led sizedRank
  | creation : Led creation
  | throwExpr : Led throwExpr
  | blockOf : Led fun nested : Unit → Parse Stmt => blockOf (nested ())
  | ifElse : Led fun nested : Unit → Parse Stmt => ifElse (nested ())
  | whileLoop : Led fun nested : Unit → Parse Stmt => whileLoop (nested ())
  | typeDecl (context : ParseContext) (head : MemberHead) (kind : TypeDeclKind) :
      Led fun nested : ParseContext → Parse (List Member) => typeDecl (nested context) head kind
  | namespaceDecl (context : ParseContext) (head : MemberHead) :
      Led fun nested : ParseContext → Parse (List Member) => namespaceDecl (nested context) head

section Inside

variable {production : (κ → Parse β) → Parse α} {key : κ} {place : Nat}
  (henters : Enters production input state key place)
include henters

/-- What is entered is behind the place when the production ends alike as long as what it reads
behind its first symbol is alike. -/
theorem Enters.rises (hpaired : ∀ nested other : κ → Parse β,
      (∀ key, PairedFrom (state.position + 1) (nested key) (other key) input) →
        Paired (production nested) (production other) input state) : state.position < place :=
  (henters.of_paired (fun _ _ => True) fun nested other hnested =>
    (hpaired nested other fun key before hbefore => hnested key before hbefore trivial).same).1

theorem Recursive.rises (h : Recursive production) : state.position < place := by
  refine henters.rises fun nested other hnested => ?_
  have hfloor := Nat.le_refl (state.position + 1)
  cases h with
  | segment? start left => exact segment?_paired (hnested ()) start left hfloor
  | typeStep => exact typeStep_paired (hnested ()) hfloor
  | primary => exact primary_paired (.of_keys hnested) hfloor
  | exprSuffix? start expr => exact exprSuffix?_paired (.of_keys hnested) start expr hfloor
  | suffixed => exact suffixed_paired (.of_keys hnested) hfloor
  | unary => exact unary_paired (.of_keys hnested) hfloor
  | infixStep? start least left =>
      exact infixStep?_paired (.of_keys hnested) start least left hfloor
  | binary least => exact binary_paired (.of_keys hnested) least hfloor
  | conditional => exact conditional_paired (.of_keys hnested) hfloor
  | assignment => exact assignment_paired (.of_keys hnested) hfloor
  | stmtStep => exact stmtStep_paired (hnested ()) hfloor
  | declaredMember context head => exact declaredMember_paired hnested context head hfloor
  | member context => exact member_paired hnested context hfloor
  | someMember context => exact someMember_paired hnested context hfloor
  | memberList context => exact memberList_paired hnested context hfloor

theorem Led.rises (h : Led production) (hkind : input.sentence.kindAt state.position ≠ .eof) :
    state.position < place := by
  refine henters.rises fun nested other hnested => ?_
  have hfloor := Nat.le_refl (state.position + 1)
  cases h with
  | typeArguments => exact typeArguments_paired (hnested ()) hkind hfloor
  | tupleType => exact tupleType_paired (hnested ()) hkind hfloor
  | simpleName => exact simpleName_paired (hnested ()) hkind hfloor
  | qualifiedName => exact qualifiedName_paired (hnested ()) hkind hfloor
  | argumentList closing =>
      exact (argumentList_stepped (.of_keys hnested) closing hkind hfloor).paired
  | arrayInitializer => exact arrayInitializer_paired (.of_keys hnested) hkind hfloor
  | parenthesized => exact parenthesized_paired (.of_keys hnested) hkind hfloor
  | sizedRank => exact sizedRank_paired (.of_keys hnested) hkind hfloor
  | creation => exact creation_paired (.of_keys hnested) hkind hfloor
  | throwExpr => exact throwExpr_paired (.of_keys hnested) hkind hfloor
  | blockOf => exact blockOf_paired (hnested ()) hkind hfloor
  | ifElse => exact ifElse_paired (hnested ()) hkind hfloor
  | whileLoop => exact whileLoop_paired (hnested ()) hkind hfloor
  | typeDecl context head kind =>
      exact (typeDecl_stepped (hnested context) head kind hkind hfloor).paired
  | namespaceDecl context head =>
      exact (namespaceDecl_stepped (hnested context) head hkind hfloor).paired

end Inside

theorem throwExpr_enters (hkind : input.sentence.kindAt state.position ≠ .eof) :
    Enters throwExpr input state .full (state.position + 1) := by
  let nested (_ : ExprLevel) : Parse Expr := missingExpr
  let noting : Parse Expr := noteHere .invalidTerm >>= fun _ => missingExpr
  let other (level : ExprLevel) : Parse Expr := fun input before =>
    if level = .full ∧ before.position = state.position + 1 then noting input before
    else missingExpr input before
  have hcount : ∀ nested : ExprLevel → Parse Expr, (throwExpr nested input state).2.findings =
      (nested .full input ⟨state.position + 1,
        .uses .throwExpressions state.position :: state.findings, state.exprs⟩).2.findings := by
    intro nested
    change Ends (throwExpr nested) input state fun _ after => after.findings = _
    unfold throwExpr
    exact .position (.noteHere (.advance hkind rfl))
  refine ⟨nested, other, fun _ => Scripted.missingExpr.onward .none, ?_, fun heq => ?_⟩
  · intro level before hne
    have hplace : ¬(level = .full ∧ before.position = state.position + 1) := by
      rintro ⟨rfl, hbefore⟩
      exact hne (by rw [hbefore])
    exact (if_neg hplace).symm
  · have hone : ∀ before, (missingExpr input before).2.findings.length =
        before.findings.length + 1 := fun _ => rfl
    have htwo : ∀ before, (noting input before).2.findings.length =
        before.findings.length + 2 := fun _ => rfl
    have hfindings := congrArg (fun ended => ended.2.findings.length) heq
    simp only [hcount, nested, other, and_self, if_true, hone, htwo] at hfindings
    omega

/-- The elements of a list, which is opened by a symbol. -/
inductive RecursiveElement : {κ β α : Type} → ((κ → Parse β) → Parse α) → Prop where
  | elementType (named : Bool) :
      RecursiveElement fun nested : Unit → Parse TypeSyntax => elementType (nested ()) named
  | argument : RecursiveElement argument
  | initializerElement : RecursiveElement initializerElement

theorem RecursiveElement.rises {production : (κ → Parse β) → Parse α}
    (h : RecursiveElement production) {key : κ} {place : Nat}
    (henters : Enters production input state key place) : state.position ≤ place := by
  refine (henters.of_paired (fun _ _ => True) fun nested other hnested => ?_).1
  have hkeys : ∀ key, PairedFrom state.position (nested key) (other key) input :=
    fun key before hbefore => hnested key before hbefore trivial
  cases h with
  | elementType named => exact (elementType_paired (hkeys ()) named state (Nat.le_refl _)).same
  | argument => exact (argument_paired (.of_keys hkeys) state (Nat.le_refl _)).same
  | initializerElement =>
      exact (initializerElement_paired (.of_keys hkeys) state (Nat.le_refl _)).same

end TolerantSyntax.Parse
