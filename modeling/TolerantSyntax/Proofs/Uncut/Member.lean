import TolerantSyntax.Proofs.Uncut.Expr

/-!
# Statements and declarations stay in front of the end

Where the second symbol ahead is asked for, the first one is known to be a name or a keyword.
Skipping stops at an end of file.  So the whole compilation unit is confined.
-/

namespace TolerantSyntax.Parse

variable {wide narrow : Sentence} {state : ParseState}

namespace Confined

theorem declarator : Confined declarator := by
  refine (expect _).bind fun _ => (eat _).bind fun eq? => ?_
  cases eq? with
  | none => exact .pure _
  | some eq => exact variableValue.bind fun _ => .pure _

theorem declarators : Confined declarators :=
  separated declarator fun _ => Scripted.declarator.onward .none

theorem eatModifier (modifier : Modifier) (keyword : TokenKind) (set : ModifierSet) :
    Confined (eatModifier modifier keyword set) := by
  refine (eat _).bind fun token? => ?_
  cases token? <;> exact .pure _

theorem localDeclaration : Confined localDeclaration := by
  unfold Parse.localDeclaration
  refine (eatModifier _ _ _).bind fun constant => refQualifier?.bind fun qualifier? => ?_
  have hrest : ∀ modifiers, Confined (do
      let type ← Parse.qualifiedType qualifier?
      let declarators ← Parse.declarators
      let semicolon? ← Parse.expect .semicolon
      return LocalDeclaration.mk modifiers type declarators semicolon?) := fun modifiers =>
    (qualifiedType _).bind fun _ => declarators.bind fun _ => (expect _).bind fun _ => .pure _
  exact .ite ((eatModifier _ _ _).bind hrest) ((pure constant).bind hrest)

theorem typeAndName : Confined typeAndName := by
  constructor
  intro wide narrow h state hle
  refine (type.alike h hle).bind fun type after hafter => ?_
  refine .ask ((Sentence.Local.ofKind (· == .identifier)).same h hafter) fun answer hanswer => ?_
  split
  · rename_i hyes
    obtain ⟨-, rfl⟩ : _ ∧ answer = true := by simpa using hyes
    have hname : narrow.kindAt after.position = .identifier := by simpa using hanswer
    exact .peek h (by simp [hname]) fun _ => (pure _).alike h hafter
  · exact (pure _).alike h hafter

theorem startsDeclaration : Confined startsDeclaration :=
  (checkAny _).bind fun _ => .ite (lookAhead typeAndName) (.pure _)

theorem returned? : Confined returned? :=
  (check _).bind fun _ => .ite (.pure _) (expr.bind fun _ => .pure _)

theorem condition : Confined condition :=
  (expect _).bind fun _ => expr.bind fun _ => (expect _).bind fun _ => .pure _

theorem returnStmt : Confined returnStmt := by
  refine position.bind fun start => advance.bind fun keyword => (check _).bind fun _ => ?_
  have hrest : Confined (do
      let ref? ← Parse.eat .refKw
      let value? ← Parse.returned?
      let semicolon? ← Parse.expect .semicolon
      return Stmt.returnStmt (← Parse.rangeFrom start) keyword ref? value? semicolon?) :=
    (eat _).bind fun _ => returned?.bind fun _ => (expect _).bind fun _ =>
      (rangeFrom _).bind fun _ => .pure _
  exact .ite ((noteHere _).bind fun _ => hrest) hrest

theorem throwStmt : Confined throwStmt :=
  position.bind fun _ => advance.bind fun _ => returned?.bind fun _ => (expect _).bind fun _ =>
    (rangeFrom _).bind fun _ => .pure _

theorem declarationStmt : Confined declarationStmt :=
  position.bind fun _ => localDeclaration.bind fun _ => (rangeFrom _).bind fun _ => .pure _

theorem expressionStmt : Confined expressionStmt :=
  position.bind fun _ => expr.bind fun _ => (expect _).bind fun _ =>
    (rangeFrom _).bind fun _ => .pure _

theorem skippedStmt : Confined skippedStmt :=
  position.bind fun _ => (noteHere _).bind fun _ => advance.bind fun _ =>
    (rangeFrom _).bind fun _ => .pure _

section Stmt

variable {nested : Parse Stmt} (hscript : Scripted fun _ => nested)
  (hmoves : ∀ input, Moves nested input) (hnested : Confined nested)
include hnested

theorem ifElse : Confined (ifElse nested) := by
  refine position.bind fun start => advance.bind fun keyword => condition.bind fun condition =>
    hnested.bind fun whenTrue => (eat _).bind fun else? => ?_
  have hrest : ∀ whenFalse?, Confined (do
      return Stmt.ifElse (← Parse.rangeFrom start) keyword condition whenTrue whenFalse?) :=
    fun _ => (rangeFrom _).bind fun _ => .pure _
  cases else? with
  | none => exact (pure none).bind hrest
  | some _ => exact (hnested.map some).bind hrest

theorem whileLoop : Confined (whileLoop nested) :=
  position.bind fun _ => advance.bind fun _ => condition.bind fun _ => hnested.bind fun _ =>
    (rangeFrom _).bind fun _ => .pure _

include hscript hmoves

theorem blockOf : Confined (blockOf nested) := by
  have hstmts : Confined (Parse.many (Parse.unlessClosed nested)) :=
    many (unlessClosed hnested) fun _ =>
      .unlessClosed ((Scripted.unlessClosed hscript).onward .none) (hmoves _)
  exact position.bind fun _ => advance.bind fun _ => hstmts.bind fun _ =>
    (expect _).bind fun _ => (rangeFrom _).bind fun _ => .pure _

theorem stmtStep : Confined (stmtStep nested) := by
  unfold Parse.stmtStep
  refine kind.bind fun kind => ?_
  split
  · exact (blockOf hscript hmoves hnested).bind fun _ => .pure _
  · exact advance.bind fun _ => .pure _
  · exact returnStmt
  · exact throwStmt
  · exact ifElse hnested
  · exact whileLoop hnested
  · exact declarationStmt
  · exact declarationStmt
  · exact declarationStmt
  · exact .ite skippedStmt (startsDeclaration.bind fun _ => .ite declarationStmt expressionStmt)

end Stmt

theorem stmtWithin (n : Nat) : Confined (stmtWithin n) := by
  induction n with
  | zero => exact skippedStmt
  | succ n ih =>
      exact stmtStep (Scripted.stmtWithin n) (fun _ _ heof _ => stmtWithin_moves n heof) ih

theorem stmt : Confined stmt :=
  ⟨fun h _ hle =>
    .read .stmts () h Recursion.stmts_rising trivial fun n => (stmtWithin n).alike h hle⟩

theorem block : Confined block := blockOf .stmt (fun _ _ heof _ => stmt_moves heof) stmt

/-! ## Members -/

theorem memberInfo (head : MemberHead) : Confined (memberInfo head) :=
  (rangeFrom _).bind fun _ => .pure _

theorem modifierEntry? : Confined modifierEntry? := by
  refine (ask .modifierAt?).bind fun modifier? => ?_
  cases modifier? with
  | none => exact .pure _
  | some modifier => exact advance.bind fun _ => .pure _

theorem memberHead : Confined memberHead :=
  position.bind fun _ => (many modifierEntry? fun _ => Round.modifierEntry?).bind fun _ =>
    refQualifier?.bind fun _ => .pure _

theorem typeParameters? : Confined typeParameters? := by
  have hnames : Confined (Parse.separated (Parse.expect .identifier)) :=
    separated (expect _) fun _ => (Scripted.expect _).onward .none
  refine (eat _).bind fun lt? => ?_
  cases lt? with
  | none => exact .pure _
  | some lt => exact hnames.bind fun _ => (expect _).bind fun _ => .pure _

theorem clauseType : Confined clauseType :=
  type.bind fun _ => .ite ((synchronize _).bind fun _ => .pure _) (.pure _)

theorem baseTypes : Confined baseTypes := by
  refine (eat _).bind fun colon? => ?_
  cases colon? with
  | none => exact .pure _
  | some colon => exact separated clauseType fun _ => Scripted.clauseType.onward .none

theorem parameter : Confined parameter := by
  refine (whenever (checkAny _) advance).bind fun modifier? => type.bind fun type =>
    (expect _).bind fun name? => ?_
  refine .ite ((synchronize _).bind fun _ => (eat _).bind fun eq? => ?_)
    ((eat _).bind fun eq? => ?_)
  all_goals
    cases eq? with
    | none => exact .pure _
    | some eq => exact expr.bind fun _ => .pure _

theorem parametersWithin (n : Nat) : Confined (parametersWithin n) := by
  induction n with
  | zero => exact .pure _
  | succ n ih =>
      refine parameter.bind fun _ => (eat _).bind fun comma? => ?_
      cases comma? with
      | none => exact .pure _
      | some comma =>
          exact (checkAny _).bind fun _ => .ite (ih.bind fun _ => .pure _)
            ((noteHere _).bind fun _ => .pure _)

theorem parameterList (opening closing : TokenKind) :
    Confined (parameterList opening closing) := by
  constructor
  intro wide narrow h state hle
  refine ((expect _).alike h hle).bind fun opening? after hafter => ?_
  have hstarts := (Sentence.Local.ofKind TokenSet.parameterStart.contains).same h hafter
  refine .ask hstarts fun answer hanswer => ?_
  have hrest : ∀ params, Confined (do
      let closing? ← Parse.expect closing
      return ParameterList.mk opening? params closing?) :=
    fun _ => (expect _).bind fun _ => .pure _
  split
  · rename_i hyes
    have hparameters : ReadsAlike (Recursion.parameters.read ()) wide narrow after :=
      .read .parameters () h parameters_rising (hanswer.trans hyes) fun n =>
        (parametersWithin n).alike h hafter
    exact hparameters.bind fun params _ hbehind => (hrest params).alike h hbehind
  · exact ((pure []).bind hrest).alike h hafter

theorem arrowBody : Confined arrowBody :=
  (noteHere _).bind fun _ => advance.bind fun _ => expr.bind fun _ =>
    (expect _).bind fun _ => .pure _

theorem memberBody : Confined memberBody := by
  unfold Parse.memberBody
  refine kind.bind fun kind => ?_
  split
  · exact block.map _
  · exact arrowBody.map _
  · exact (expect _).map _

theorem keywordModifier? : Confined keywordModifier? := by
  unfold Parse.keywordModifier?
  refine kind.bind fun kind => ?_
  split
  · exact .pure _
  · exact advance.bind fun _ => .pure _

theorem accessor? : Confined accessor? := by
  refine (many keywordModifier? fun _ => .keywordModifier?).bind fun _ =>
    (ask .accessorKeywordAt).bind fun _ => .ite ?_ ?_
  · exact advance.bind fun _ => memberBody.bind fun _ => .pure _
  · have hskips : Sentence.Skips Sentence.accessorBoundary := fun _ _ =>
      Sentence.accessorBoundaryWithin_bounds _ _ _
    exact (noteHere _).bind fun _ => (moveTo hskips .accessorBoundary).bind fun _ => .pure _

theorem propertyBody : Confined propertyBody := by
  refine (check _).bind fun _ => .ite (arrowBody.bind fun _ => .pure _) ?_
  exact (braced (many (unlessClosed accessor?) fun _ => .accessor?)).bind fun _ => .pure _

theorem declaredOperator? : Confined declaredOperator? := by
  constructor
  intro wide narrow h state hle
  refine .ask rfl fun start _ => .ask (Sentence.Local.shiftAt.same h hle) fun answer hanswer => ?_
  split
  · rename_i hyes
    have hleft := Sentence.shiftAt_left (hanswer.trans hyes)
    exact (ReadsAlike.moveOver hle hleft).bind fun _ _ hafter =>
      ((rangeFrom _).bind fun _ => .pure _).alike h hafter
  · have hsingle : Confined (do
        if ← Parse.checkAny .overloadableOperators then
          return some (.single (← Parse.advance))
        else
          Parse.noteHere .operatorExpected
          return none : Parse (Option TokenRange)) :=
      (checkAny _).bind fun _ => .ite (advance.bind fun _ => .pure _)
        ((noteHere _).bind fun _ => .pure _)
    exact hsingle.alike h hle

section Member

variable (head : MemberHead)

theorem fieldDecl (type : TypeSyntax) : Confined (fieldDecl head type) :=
  declarators.bind fun _ => (expect _).bind fun _ => (memberInfo head).bind fun _ => .pure _

theorem methodDecl (type : TypeSyntax) : Confined (methodDecl head type) :=
  advance.bind fun _ => typeParameters?.bind fun _ => (parameterList _ _).bind fun _ =>
    memberBody.bind fun _ => (memberInfo head).bind fun _ => .pure _

theorem propertyDecl (type : TypeSyntax) : Confined (propertyDecl head type) :=
  advance.bind fun _ => propertyBody.bind fun _ => (memberInfo head).bind fun _ => .pure _

theorem indexerDecl (type : TypeSyntax) : Confined (indexerDecl head type) :=
  advance.bind fun _ => (parameterList _ _).bind fun _ => propertyBody.bind fun _ =>
    (memberInfo head).bind fun _ => .pure _

theorem operatorDecl (type : TypeSyntax) : Confined (operatorDecl head type) :=
  advance.bind fun _ => declaredOperator?.bind fun _ => (parameterList _ _).bind fun _ =>
    memberBody.bind fun _ => (memberInfo head).bind fun _ => .pure _

theorem abandoned (type : TypeSyntax) : Confined (abandoned head type) :=
  (noteHere _).bind fun _ => (memberInfo head).bind fun _ => .pure _

theorem typedMember : Confined (typedMember head) := by
  constructor
  intro wide narrow h state hle
  refine ((qualifiedType _).alike h hle).bind fun type after hafter => ?_
  split
  · exact ((memberInfo head).bind fun _ => .pure _).alike h hafter
  · refine .kind h hafter fun kind hkind => ?_
    split
    · exact (indexerDecl head type).alike h hafter
    · exact (ite (abandoned head type) (operatorDecl head type)).alike h hafter
    · refine .peek h (by simp [hkind]) fun follow => ?_
      split
      · exact (methodDecl head type).alike h hafter
      · exact (methodDecl head type).alike h hafter
      · exact (propertyDecl head type).alike h hafter
      · exact (propertyDecl head type).alike h hafter
      · exact (ite (methodDecl head type) (fieldDecl head type)).alike h hafter
    · exact (abandoned head type).alike h hafter

theorem conversionDecl : Confined (conversionDecl head) :=
  advance.bind fun _ => advance.bind fun _ => type.bind fun _ => (parameterList _ _).bind fun _ =>
    memberBody.bind fun _ => (memberInfo head).bind fun _ => .pure _

theorem constructorDecl : Confined (constructorDecl head) :=
  advance.bind fun _ => (parameterList _ _).bind fun _ => memberBody.bind fun _ =>
    (memberInfo head).bind fun _ => .pure _

theorem delegateDecl : Confined (delegateDecl head) :=
  advance.bind fun _ => refQualifier?.bind fun _ => (qualifiedType _).bind fun _ =>
    (expect _).bind fun _ => typeParameters?.bind fun _ => (parameterList _ _).bind fun _ =>
    (expect _).bind fun _ => (memberInfo head).bind fun _ => .pure _

theorem usingDirective : Confined (usingDirective head) :=
  advance.bind fun _ => clauseType.bind fun _ => (expect _).bind fun _ =>
    (memberInfo head).bind fun _ => .pure _

theorem typeDecl {members : Parse (List Member)} (hmembers : Confined members)
    (kind : TypeDeclKind) : Confined (typeDecl members head kind) :=
  advance.bind fun _ => (expect _).bind fun _ => typeParameters?.bind fun _ =>
    baseTypes.bind fun _ => (braced hmembers).bind fun _ => (eat _).bind fun _ =>
    (memberInfo head).bind fun _ => .pure _

theorem namespaceDecl {members : Parse (List Member)} (hmembers : Confined members) :
    Confined (namespaceDecl members head) :=
  advance.bind fun _ => type.bind fun _ => (braced hmembers).bind fun _ =>
    (memberInfo head).bind fun _ => .pure _

variable {nested : ParseContext → Parse (List Member)}
  (hnested : ∀ context, Confined (nested context))
include hnested

theorem declaredMember (context : ParseContext) :
    Confined (declaredMember nested context head) := by
  constructor
  intro wide narrow h state hle
  have htyped : ReadsAlike (Parse.typedMember head) wide narrow state :=
    (typedMember head).alike h hle
  unfold Parse.declaredMember
  dsimp only
  split
  · exact htyped
  · refine .kind h hle fun kind hkind => ?_
    have hpeek : kind ≠ .eof → ∀ next : TokenKind → Parse Member,
        (∀ follow, Confined (next follow)) →
        ReadsAlike (Parse.peek 1 >>= next) wide narrow state := fun hne next hnext =>
      .peek h (hkind ▸ hne) fun follow => (hnext follow).alike h hle
    split
    · exact (typeDecl head (hnested _) _).alike h hle
    · exact (typeDecl head (hnested _) _).alike h hle
    · exact (typeDecl head (hnested _) _).alike h hle
    · exact (delegateDecl head).alike h hle
    · exact hpeek (by decide) _ fun _ => .ite (conversionDecl head) (typedMember head)
    · exact hpeek (by decide) _ fun _ => .ite (conversionDecl head) (typedMember head)
    · exact hpeek (by decide) _ fun _ => .ite (constructorDecl head) (typedMember head)
    · exact htyped

omit head

theorem member (context : ParseContext) : Confined (member nested context) := by
  unfold Parse.member
  refine kind.bind fun kind => ?_
  split
  · exact position.bind fun _ => usingDirective _
  · exact position.bind fun _ => namespaceDecl _ (hnested _)
  · exact memberHead.bind fun head => declaredMember head hnested context

omit hnested in
theorem skippedMember (context : ParseContext) : Confined (skippedMember context) := by
  have hskips : Sentence.Skips fun sentence =>
      sentence.memberBoundary context.memberStart.contains := fun _ _ =>
    Sentence.memberBoundaryWithin_bounds _ _ _ _
  exact position.bind fun _ => (noteHere _).bind fun _ => advance.bind fun _ =>
    (moveTo hskips (.memberBoundary _)).bind fun _ => (rangeFrom _).bind fun _ => .pure _

theorem someMember (context : ParseContext) : Confined (someMember nested context) := by
  refine position.bind fun start => (checkAny _).bind fun _ => ?_
  have hrest : ∀ member, Confined (do
      if (← Parse.position) == start then
        let _ ← Parse.advance
        return Member.skipped ⟨.empty, ← Parse.rangeFrom start⟩
      else return member) := fun _ =>
    position.bind fun _ => .ite (advance.bind fun _ => (rangeFrom _).bind fun _ => .pure _)
      (.pure _)
  exact .ite ((member hnested context).bind hrest) ((skippedMember context).bind hrest)

end Member

theorem hasMember (context : ParseContext) : Confined (hasMember context) :=
  ask (.ofKind fun kind => kind != .eof && !(kind == .rBrace && context.isBraced))

theorem membersWithin (n : Nat) (context : ParseContext) : Confined (membersWithin n context) := by
  induction n generalizing context with
  | zero => exact .pure _
  | succ n ih =>
      exact many (whenever (hasMember context) (someMember ih context)) fun _ =>
        .someMember (Scripted.membersWithin n) (membersWithin_covers n) context

theorem members (context : ParseContext) : Confined (members context) :=
  ⟨fun h _ hle => .read .members context h Recursion.members_rising trivial fun n =>
    (membersWithin n context).alike h hle⟩

/-- Nothing behind the end makes a difference to a compilation unit. -/
theorem compilationUnit : Confined compilationUnit :=
  (members .none).bind fun _ => position.bind fun _ => .pure _

end Confined
end TolerantSyntax.Parse
