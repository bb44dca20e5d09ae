import TolerantSyntax.Grammar.Member
import TolerantSyntax.Proofs.Recovery.Brace
import TolerantSyntax.Proofs.Speculation.Expr

/-!
# Scripts of statements and declarations

Member lists are the only productions that look at the context, and bodies the only ones that
change it: what is in a body is read between entering and leaving it.  The type of a local
declaration is the only thing that is read to look ahead.
-/

namespace TolerantSyntax.Parse.Scripted

theorem declarator : Scripted fun _ => declarator := by
  refine (expect _).bind fun _ => (eat _).bind fun eq? => ?_
  cases eq? with
  | none => exact .pure _
  | some eq => exact (initializerElement exprAt).bind fun _ => .pure _

theorem declarators : Scripted fun _ => declarators := separated declarator

theorem eatModifier (modifier : Modifier) (keyword : TokenKind) (set : ModifierSet) :
    Scripted fun _ => eatModifier modifier keyword set := by
  refine (eat _).bind fun token? => ?_
  cases token? <;> exact .pure _

theorem localDeclaration : Scripted fun _ => localDeclaration := by
  unfold Parse.localDeclaration
  refine (eatModifier _ _ _).bind fun constant => refQualifier?.bind fun qualifier? => ?_
  have hrest : ∀ modifiers, Scripted fun _ => (do
      let type ← Parse.qualifiedType qualifier?
      let declarators ← Parse.declarators
      let semicolon? ← Parse.expect .semicolon
      return LocalDeclaration.mk modifiers type declarators semicolon?) := fun modifiers =>
    (qualifiedType _).bind fun _ => declarators.bind fun _ => (expect _).bind fun _ => .pure _
  exact .ite ((eatModifier _ _ _).bind hrest) ((pure constant).bind hrest)

theorem typeAndName : Scripted fun _ => typeAndName := by
  refine type.bind fun type => ?_
  have hfollow : Scripted fun _ => (do
      return TokenSet.declaratorFollow.contains (← peek 1)) := (ask _).bind fun _ => .pure _
  exact (ask _).bind fun _ => .ite hfollow (.pure _)

theorem startsDeclaration : Scripted fun _ => startsDeclaration :=
  (ask _).bind fun _ => .ite (lookAhead typeAndName) (.pure _)

theorem returned? : Scripted fun _ => returned? :=
  (ask _).bind fun _ => .ite (.pure _) ((exprAt .full).bind fun _ => .pure _)

theorem condition : Scripted fun _ => condition :=
  (expect _).bind fun _ => (exprAt .full).bind fun _ => (expect _).bind fun _ => .pure _

theorem returnStmt : Scripted fun _ => returnStmt := by
  refine (ask _).bind fun start => advance.bind fun keyword => (ask _).bind fun _ => ?_
  have hrest : Scripted fun _ => (do
      let ref? ← Parse.eat .refKw
      let value? ← Parse.returned?
      let semicolon? ← Parse.expect .semicolon
      return Stmt.returnStmt (← rangeFrom start) keyword ref? value? semicolon?) :=
    (eat _).bind fun _ => returned?.bind fun _ => (expect _).bind fun _ =>
      (ask _).bind fun _ => .pure _
  exact .ite ((noteHere _).bind fun _ => hrest) hrest

theorem throwStmt : Scripted fun _ => throwStmt :=
  (ask _).bind fun _ => advance.bind fun _ => returned?.bind fun _ => (expect _).bind fun _ =>
    (ask _).bind fun _ => .pure _

theorem declarationStmt : Scripted fun _ => declarationStmt :=
  (ask _).bind fun _ => localDeclaration.bind fun _ => (ask _).bind fun _ => .pure _

theorem expressionStmt : Scripted fun _ => expressionStmt :=
  (ask _).bind fun _ => (exprAt .full).bind fun _ => (expect _).bind fun _ =>
    (ask _).bind fun _ => .pure _

theorem skippedStmt : Scripted fun _ => skippedStmt :=
  (ask _).bind fun _ => (noteHere _).bind fun _ => advance.bind fun _ =>
    (ask _).bind fun _ => .pure _

section Stmt

variable {nested : Parse Stmt} (hnested : Scripted fun _ => nested)
include hnested

theorem blockOf : Scripted fun _ => blockOf nested :=
  (ask _).bind fun _ => advance.bind fun _ => (many (unlessClosed hnested)).bind fun _ =>
    (expect _).bind fun _ => (ask _).bind fun _ => .pure _

theorem ifElse : Scripted fun _ => ifElse nested := by
  refine (ask _).bind fun start => advance.bind fun keyword => condition.bind fun condition =>
    hnested.bind fun whenTrue => (eat _).bind fun else? => ?_
  have hrest : ∀ whenFalse?, Scripted fun _ => (do
      return Stmt.ifElse (← rangeFrom start) keyword condition whenTrue whenFalse?) :=
    fun _ => (ask _).bind fun _ => .pure _
  cases else? with
  | none => exact (pure none).bind hrest
  | some _ => exact (hnested.map some).bind hrest

theorem whileLoop : Scripted fun _ => whileLoop nested :=
  (ask _).bind fun _ => advance.bind fun _ => condition.bind fun _ => hnested.bind fun _ =>
    (ask _).bind fun _ => .pure _

theorem stmtStep : Scripted fun _ => stmtStep nested := by
  unfold Parse.stmtStep
  refine (ask _).bind fun kind => ?_
  split
  · exact (blockOf hnested).bind fun _ => .pure _
  · exact advance.bind fun _ => .pure _
  · exact returnStmt
  · exact throwStmt
  · exact ifElse hnested
  · exact whileLoop hnested
  · exact declarationStmt
  · exact declarationStmt
  · exact declarationStmt
  · exact .ite skippedStmt (startsDeclaration.bind fun _ => .ite declarationStmt expressionStmt)

end Stmt

theorem stmtWithin (n : Nat) : Scripted fun _ => stmtWithin n := by
  induction n with
  | zero => exact skippedStmt
  | succ n ih => exact stmtStep ih

theorem stmt : Scripted fun _ => stmt := (ask _).bind fun n => stmtWithin n

theorem block : Scripted fun _ => block := blockOf stmt

/-! ## Members -/

theorem memberInfo (head : MemberHead) : Scripted fun _ => memberInfo head :=
  (ask _).bind fun _ => .pure _

theorem modifierEntry? : Scripted fun _ => modifierEntry? := by
  refine (ask _).bind fun modifier? => ?_
  cases modifier? with
  | none => exact .pure _
  | some modifier => exact advance.bind fun _ => .pure _

theorem memberHead : Scripted fun _ => memberHead :=
  (ask _).bind fun _ => (many modifierEntry?).bind fun _ => refQualifier?.bind fun _ => .pure _

theorem typeParameters? : Scripted fun _ => typeParameters? := by
  refine (eat _).bind fun lt? => ?_
  cases lt? with
  | none => exact .pure _
  | some lt => exact (separated (expect _)).bind fun _ => (expect _).bind fun _ => .pure _

theorem clauseType : Scripted fun _ => clauseType :=
  type.bind fun _ => .ite ((synchronize _).bind fun _ => .pure _) (.pure _)

theorem baseTypes : Scripted fun _ => baseTypes := by
  refine (eat _).bind fun colon? => ?_
  cases colon? with
  | none => exact .pure _
  | some colon => exact separated clauseType

theorem parameter : Scripted fun _ => parameter := by
  refine (whenever (ask _) advance).bind fun modifier? => type.bind fun type =>
    (expect _).bind fun name? => ?_
  refine .ite ((synchronize _).bind fun _ => (eat _).bind fun eq? => ?_)
    ((eat _).bind fun eq? => ?_)
  all_goals
    cases eq? with
    | none => exact .pure _
    | some eq => exact (exprAt .full).bind fun _ => .pure _

theorem parametersWithin (n : Nat) : Scripted fun _ => parametersWithin n := by
  induction n with
  | zero => exact .pure _
  | succ n ih =>
      refine parameter.bind fun _ => (eat _).bind fun comma? => ?_
      cases comma? with
      | none => exact .pure _
      | some comma =>
          exact (ask _).bind fun _ => .ite (ih.bind fun _ => .pure _)
            ((noteHere _).bind fun _ => .pure _)

theorem parameterList (opening closing : TokenKind) :
    Scripted fun _ => parameterList opening closing := by
  refine (expect _).bind fun opening? => (ask _).bind fun _ => ?_
  have hrest : ∀ params, Scripted fun _ => (do
      let closing? ← Parse.expect closing
      return ParameterList.mk opening? params closing?) :=
    fun _ => (expect _).bind fun _ => .pure _
  exact .ite ((ask _).bind fun n => (parametersWithin n).bind hrest) ((pure []).bind hrest)

theorem arrowBody : Scripted fun _ => arrowBody :=
  (noteHere _).bind fun _ => advance.bind fun _ => (exprAt .full).bind fun _ =>
    (expect _).bind fun _ => .pure _

theorem memberBody : Scripted fun _ => memberBody := by
  unfold Parse.memberBody
  refine (ask _).bind fun kind => ?_
  split
  · exact block.map _
  · exact arrowBody.map _
  · exact (expect _).map _

theorem keywordModifier? : Scripted fun _ => keywordModifier? := by
  unfold Parse.keywordModifier?
  refine (ask _).bind fun kind => ?_
  split
  · exact .pure _
  · exact advance.bind fun _ => .pure _

theorem accessor? : Scripted fun _ => accessor? := by
  refine (many keywordModifier?).bind fun _ => (ask _).bind fun _ => .ite ?_ ?_
  · exact advance.bind fun _ => memberBody.bind fun _ => .pure _
  · exact (noteHere _).bind fun _ =>
      (moveTo fun _ _ => Sentence.accessorBoundaryWithin_bounds _ _ _).bind fun _ => .pure _

theorem propertyBody : Scripted fun _ => propertyBody := by
  refine (ask _).bind fun _ => .ite (arrowBody.bind fun _ => .pure _) ?_
  exact (braced (many (unlessClosed accessor?))).bind fun _ => .pure _

theorem declaredOperator? : Scripted fun _ => declaredOperator? := by
  refine (ask _).bind fun start => ?_
  have hsingle : Scripted fun _ => (do
      if ← Parse.checkAny .overloadableOperators then return some (.single (← Parse.advance))
      else
        Parse.noteHere .operatorExpected
        return none : Parse (Option TokenRange)) :=
    (ask _).bind fun _ => .ite (advance.bind fun _ => .pure _) ((noteHere _).bind fun _ => .pure _)
  have hmoved : ∀ isShift : Bool, Scripted fun _ =>
      (if isShift then do
        Parse.moveTo Sentence.behindShift
        return some (← rangeFrom start)
      else do
        if ← Parse.checkAny .overloadableOperators then return some (.single (← Parse.advance))
        else
          Parse.noteHere .operatorExpected
          return none : Parse (Option TokenRange)) := fun _ =>
    .ite ((moveTo Sentence.behindShift_skips).bind fun _ => (ask _).bind fun _ => .pure _) hsingle
  refine asked hmoved fun _ input state => ?_
  cases hshift : input.sentence.shiftAt state.position with
  | false => rfl
  | true =>
      have hplace : input.sentence.behindShift state.position = state.position + 2 := by
        simp [Sentence.behindShift, hshift]
      change (some (TokenRange.mk start (max start (state.position + 2))), _) =
        (some (TokenRange.mk start (max start (input.sentence.behindShift state.position))), _)
      rw [hplace]

section Member

variable (head : MemberHead)

theorem fieldDecl (type : TypeSyntax) : Scripted fun _ => fieldDecl head type :=
  declarators.bind fun _ => (expect _).bind fun _ => (memberInfo head).bind fun _ => .pure _

theorem methodDecl (type : TypeSyntax) : Scripted fun _ => methodDecl head type :=
  advance.bind fun _ => typeParameters?.bind fun _ => (parameterList _ _).bind fun _ =>
    memberBody.bind fun _ => (memberInfo head).bind fun _ => .pure _

theorem propertyDecl (type : TypeSyntax) : Scripted fun _ => propertyDecl head type :=
  advance.bind fun _ => propertyBody.bind fun _ => (memberInfo head).bind fun _ => .pure _

theorem indexerDecl (type : TypeSyntax) : Scripted fun _ => indexerDecl head type :=
  advance.bind fun _ => (parameterList _ _).bind fun _ => propertyBody.bind fun _ =>
    (memberInfo head).bind fun _ => .pure _

theorem operatorDecl (type : TypeSyntax) : Scripted fun _ => operatorDecl head type :=
  advance.bind fun _ => declaredOperator?.bind fun _ => (parameterList _ _).bind fun _ =>
    memberBody.bind fun _ => (memberInfo head).bind fun _ => .pure _

theorem abandoned (type : TypeSyntax) : Scripted fun _ => abandoned head type :=
  (noteHere _).bind fun _ => (memberInfo head).bind fun _ => .pure _

theorem behindType (type : TypeSyntax) : Scripted fun _ => (do
    if type.valueType.isMissing then
      return Member.incomplete (← Parse.memberInfo head) (if type.isByRef then some type else none)
    else
      match ← kind with
      | .thisKw => Parse.indexerDecl head type
      | .operatorKw =>
          if type.isByRef then Parse.abandoned head type else Parse.operatorDecl head type
      | .identifier => do
          match ← peek 1 with
          | .lParen | .lt => Parse.methodDecl head type
          | .lBrace | .arrow => Parse.propertyDecl head type
          | _ => if type.isByRef then Parse.methodDecl head type else Parse.fieldDecl head type
      | _ => Parse.abandoned head type) := by
  refine .ite ((memberInfo head).bind fun _ => .pure _) ((ask _).bind fun kind => ?_)
  split
  · exact indexerDecl head type
  · exact .ite (abandoned head type) (operatorDecl head type)
  · refine (ask _).bind fun follow => ?_
    split
    · exact methodDecl head type
    · exact methodDecl head type
    · exact propertyDecl head type
    · exact propertyDecl head type
    · exact .ite (methodDecl head type) (fieldDecl head type)
  · exact abandoned head type

theorem typedMember : Scripted fun _ => typedMember head :=
  (qualifiedType _).bind fun type => behindType head type

theorem conversionDecl : Scripted fun _ => conversionDecl head :=
  advance.bind fun _ => advance.bind fun _ => type.bind fun _ => (parameterList _ _).bind fun _ =>
    memberBody.bind fun _ => (memberInfo head).bind fun _ => .pure _

theorem constructorDecl : Scripted fun _ => constructorDecl head :=
  advance.bind fun _ => (parameterList _ _).bind fun _ => memberBody.bind fun _ =>
    (memberInfo head).bind fun _ => .pure _

theorem delegateDecl : Scripted fun _ => delegateDecl head :=
  advance.bind fun _ => refQualifier?.bind fun _ => (qualifiedType _).bind fun _ =>
    (expect _).bind fun _ => typeParameters?.bind fun _ => (parameterList _ _).bind fun _ =>
    (expect _).bind fun _ => (memberInfo head).bind fun _ => .pure _

theorem usingDirective : Scripted fun _ => usingDirective head :=
  advance.bind fun _ => clauseType.bind fun _ => (expect _).bind fun _ =>
    (memberInfo head).bind fun _ => .pure _

section Bodies

variable {members : ParseContext → Parse (List Member)} (hmembers : Scripted members)
include hmembers

theorem typeDecl (kind : TypeDeclKind) :
    Scripted fun context => typeDecl (members context.enterType) head kind :=
  advance.bind fun _ => (expect _).bind fun _ => typeParameters?.bind fun _ =>
    baseTypes.bind fun _ => (braced (hmembers.within _ _)).bind fun _ => (eat _).bind fun _ =>
    (memberInfo head).bind fun _ => .pure _

theorem namespaceDecl :
    Scripted fun context => namespaceDecl (members context.enterNamespace) head :=
  advance.bind fun _ => type.bind fun _ => (braced (hmembers.within _ _)).bind fun _ =>
    (memberInfo head).bind fun _ => .pure _

theorem declaredMember : Scripted fun context => declaredMember members context head := by
  refine .ite (typedMember head) ((ask _).bind fun kind => ?_)
  cases kind
  case classKw => exact typeDecl head hmembers _
  case structKw => exact typeDecl head hmembers _
  case interfaceKw => exact typeDecl head hmembers _
  case delegateKw => exact delegateDecl head
  case implicitKw => exact (ask _).bind fun _ => .ite (conversionDecl head) (typedMember head)
  case explicitKw => exact (ask _).bind fun _ => .ite (conversionDecl head) (typedMember head)
  case identifier => exact (ask _).bind fun _ => .ite (constructorDecl head) (typedMember head)
  all_goals exact typedMember head

omit head in
theorem member : Scripted fun context => member members context := by
  refine (ask _).bind fun kind => ?_
  cases kind
  case usingKw => exact (ask _).bind fun _ => usingDirective _
  case namespaceKw => exact (ask _).bind fun _ => namespaceDecl _ hmembers
  all_goals exact memberHead.bind fun head => declaredMember head hmembers

omit hmembers in
theorem skippedMember : Scripted skippedMember := by
  have hstray : ∀ inTypeBody : Bool, Scripted fun _ =>
      Parse.noteHere (if inTypeBody then .strayInType else .strayOutside) := fun _ => noteHere _
  have hskip : ∀ set : TokenSet, Scripted fun _ =>
      Parse.moveTo fun sentence => sentence.memberBoundary set.contains := fun _ =>
    moveTo fun _ _ => Sentence.memberBoundaryWithin_bounds _ _ _ _
  exact (ask _).bind fun _ => (asking ParseContext.inTypeBody hstray).bind fun _ =>
    advance.bind fun _ => (asking ParseContext.memberStart hskip).bind fun _ =>
    (ask _).bind fun _ => .pure _

theorem someMember : Scripted fun context => someMember members context := by
  refine (ask _).bind fun start => ?_
  have hstarts : ∀ set : TokenSet, Scripted fun _ => Parse.checkAny set := fun _ => ask _
  have hrest : ∀ member, Scripted fun _ => (do
      if (← position) == start then
        let _ ← Parse.advance
        return Member.skipped ⟨.empty, ← rangeFrom start⟩
      else return member) := fun _ =>
    (ask _).bind fun _ => .ite (advance.bind fun _ => (ask _).bind fun _ => .pure _) (.pure _)
  exact (asking ParseContext.memberStart hstarts).bind fun _ =>
    .ite ((member hmembers).bind hrest) (skippedMember.bind hrest)

end Bodies
end Member

theorem hasMember : Scripted hasMember := by
  have hanswer : ∀ isBraced : Bool, Scripted fun _ => Parse.ask fun sentence index =>
      let kind := sentence.kindAt index
      kind != .eof && !(kind == .rBrace && isBraced) := fun _ => ask _
  exact asking ParseContext.isBraced hanswer

theorem membersWithin (n : Nat) : Scripted (membersWithin n) := by
  induction n with
  | zero => exact .pure _
  | succ n ih => exact many (whenever hasMember (someMember ih))

theorem members : Scripted members := (ask _).bind fun n => membersWithin n

end TolerantSyntax.Parse.Scripted
