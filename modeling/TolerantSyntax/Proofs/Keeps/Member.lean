import TolerantSyntax.Grammar.Member
import TolerantSyntax.Proofs.Keeps.Expr

/-!
# Declarations and statements keep what expressions keep

Statements and members complete no expression of their own.  So what `exprAt` keeps at every
level is kept by every production of the grammar, up to the whole compilation unit.
-/

namespace TolerantSyntax.Parse.Keeps

variable {good : Expr → Prop} {bound : Nat} {input : Input}
  (hexpr : ∀ level, Keeps good bound input (exprAt level))

include hexpr in
theorem declarators : Keeps good bound input declarators := by
  refine .separated ?_
  unfold Parse.declarator
  refine (expect _).bind fun _ => (eat _).bind fun eq? => ?_
  cases eq? with
  | none => exact .pure _
  | some eq => exact (initializerElement hexpr).bind fun _ => .pure _

theorem eatModifier (modifier : Modifier) (keyword : TokenKind) (set : ModifierSet) :
    Keeps good bound input (eatModifier modifier keyword set) := by
  refine (eat _).bind fun token? => ?_
  cases token? <;> exact .pure _

include hexpr in
theorem localDeclaration : Keeps good bound input localDeclaration := by
  unfold Parse.localDeclaration
  refine (eatModifier _ _ _).bind fun constant => refQualifier?.bind fun qualifier? => ?_
  have hrest : ∀ modifiers, Keeps good bound input (do
      let type ← Parse.qualifiedType qualifier?
      let declarators ← Parse.declarators
      let semicolon? ← Parse.expect .semicolon
      return LocalDeclaration.mk modifiers type declarators semicolon?) := fun modifiers =>
    (qualifiedType _).bind fun _ => (declarators hexpr).bind fun _ =>
      (expect _).bind fun _ => .pure _
  exact .ite ((eatModifier _ _ _).bind hrest) (hrest constant)

section Stmt

variable {nested : Parse Stmt} (hnested : Keeps good bound input nested)

include hnested in
theorem blockOf : Keeps good bound input (blockOf nested) :=
  (ask _).bind fun _ => advance.bind fun _ => (many (unlessClosed hnested)).bind fun _ =>
    (expect _).bind fun _ => (ask _).bind fun _ => .pure _

include hexpr

theorem returned? : Keeps good bound input returned? :=
  (ask _).bind fun _ => .ite (.pure _) ((hexpr .full).bind fun _ => .pure _)

theorem condition : Keeps good bound input condition :=
  (expect _).bind fun _ => (hexpr .full).bind fun _ => (expect _).bind fun _ => .pure _

theorem returnStmt : Keeps good bound input returnStmt := by
  have hrest : ∀ start keyword, Keeps good bound input (do
      let ref? ← Parse.eat .refKw
      let value? ← Parse.returned?
      let semicolon? ← Parse.expect .semicolon
      return Stmt.returnStmt (← rangeFrom start) keyword ref? value? semicolon?) :=
    fun _ _ => (eat _).bind fun _ => (returned? hexpr).bind fun _ =>
      (expect _).bind fun _ => (ask _).bind fun _ => .pure _
  exact (ask _).bind fun _ => advance.bind fun _ => (ask _).bind fun _ =>
    .ite ((noteHere _).bind fun _ => hrest _ _) (hrest _ _)

theorem throwStmt : Keeps good bound input throwStmt :=
  (ask _).bind fun _ => advance.bind fun _ => (returned? hexpr).bind fun _ =>
    (expect _).bind fun _ => (ask _).bind fun _ => .pure _

include hnested in
theorem ifElse : Keeps good bound input (ifElse nested) := by
  refine (ask _).bind fun _ => advance.bind fun _ => (condition hexpr).bind fun _ => ?_
  refine hnested.bind fun _ => (eat _).bind fun else? => ?_
  have hrest : ∀ start keyword condition whenTrue whenFalse?, Keeps good bound input (do
      return Stmt.ifElse (← rangeFrom start) keyword condition whenTrue whenFalse?) :=
    fun _ _ _ _ _ => (ask _).bind fun _ => .pure _
  cases else? with
  | none => exact hrest _ _ _ _ _
  | some _ => exact (hnested.map some).bind fun _ => hrest _ _ _ _ _

include hnested in
theorem whileLoop : Keeps good bound input (whileLoop nested) :=
  (ask _).bind fun _ => advance.bind fun _ => (condition hexpr).bind fun _ =>
    hnested.bind fun _ => (ask _).bind fun _ => .pure _

theorem declarationStmt : Keeps good bound input declarationStmt :=
  (ask _).bind fun _ => (localDeclaration hexpr).bind fun _ => (ask _).bind fun _ => .pure _

theorem expressionStmt : Keeps good bound input expressionStmt :=
  (ask _).bind fun _ => (hexpr .full).bind fun _ => (expect _).bind fun _ =>
    (ask _).bind fun _ => .pure _

omit hexpr in
theorem skippedStmt : Keeps good bound input skippedStmt :=
  (ask _).bind fun _ => (noteHere _).bind fun _ => advance.bind fun _ =>
    (ask _).bind fun _ => .pure _

omit hexpr in
theorem startsDeclaration : Keeps good bound input startsDeclaration :=
  (ask _).bind fun _ => .ite (lookAhead _) (.pure _)

include hnested in
theorem stmtStep : Keeps good bound input (stmtStep nested) := by
  unfold Parse.stmtStep
  refine (ask _).bind fun kind => ?_
  split
  · exact (blockOf hnested).bind fun _ => .pure _
  · exact advance.bind fun _ => .pure _
  · exact returnStmt hexpr
  · exact throwStmt hexpr
  · exact ifElse hexpr hnested
  · exact whileLoop hexpr hnested
  · exact declarationStmt hexpr
  · exact declarationStmt hexpr
  · exact declarationStmt hexpr
  · refine .ite skippedStmt (startsDeclaration.bind fun _ => ?_)
    exact .ite (declarationStmt hexpr) (expressionStmt hexpr)

theorem stmtWithin (n : Nat) : Keeps good bound input (stmtWithin n) := by
  induction n with
  | zero => exact skippedStmt
  | succ n ih => exact stmtStep hexpr ih

theorem block : Keeps good bound input block :=
  blockOf ((ask _).bind fun _ => stmtWithin hexpr _)

end Stmt

/-! ## Members -/

theorem memberInfo (head : MemberHead) : Keeps good bound input (memberInfo head) :=
  (ask _).bind fun _ => .pure _

theorem modifierEntry? : Keeps good bound input modifierEntry? := by
  refine (ask _).bind fun modifier? => ?_
  cases modifier? with
  | none => exact .pure _
  | some modifier => exact advance.bind fun _ => .pure _

theorem memberHead : Keeps good bound input memberHead :=
  (ask _).bind fun _ => (many modifierEntry?).bind fun _ =>
    refQualifier?.bind fun _ => .pure _

theorem typeParameters? : Keeps good bound input typeParameters? := by
  refine (eat _).bind fun lt? => ?_
  cases lt? with
  | none => exact .pure _
  | some lt => exact (separated (expect _)).bind fun _ => (expect _).bind fun _ => .pure _

theorem clauseType : Keeps good bound input clauseType :=
  type.bind fun _ => .ite ((synchronize _).bind fun _ => .pure _) (.pure _)

theorem baseTypes : Keeps good bound input baseTypes := by
  refine (eat _).bind fun colon? => ?_
  cases colon? with
  | none => exact .pure _
  | some colon => exact separated clauseType

theorem keywordModifier? : Keeps good bound input keywordModifier? := by
  refine (ask _).bind fun kind => ?_
  split
  · exact .pure _
  · exact advance.bind fun _ => .pure _

theorem declaredOperator? : Keeps good bound input declaredOperator? := by
  refine (ask _).bind fun _ => (ask _).bind fun _ => .ite ?_ ((ask _).bind fun _ => .ite ?_ ?_)
  · exact (moveTo fun index => Nat.le_add_right index 2).bind fun _ => (ask _).bind fun _ => .pure _
  · exact advance.bind fun _ => .pure _
  · exact (noteHere _).bind fun _ => .pure _

section Member

include hexpr

theorem parameter : Keeps good bound input parameter := by
  unfold Parse.parameter
  refine (whenever (ask _) advance).bind fun _ => type.bind fun _ => (expect _).bind fun _ => ?_
  refine .ite ((synchronize _).bind fun _ => (eat _).bind fun eq? => ?_)
    ((eat _).bind fun eq? => ?_)
  · cases eq? with
    | none => exact .pure _
    | some eq => exact (hexpr .full).bind fun _ => .pure _
  · cases eq? with
    | none => exact .pure _
    | some eq => exact (hexpr .full).bind fun _ => .pure _

theorem parametersWithin (n : Nat) : Keeps good bound input (parametersWithin n) := by
  induction n with
  | zero => exact .pure _
  | succ n ih =>
      refine (parameter hexpr).bind fun _ => (eat _).bind fun comma? => ?_
      cases comma? with
      | none => exact .pure _
      | some comma =>
          refine (ask _).bind fun _ => .ite (ih.bind fun _ => .pure _) ?_
          exact (noteHere _).bind fun _ => .pure _

theorem parameterList (opening closing : TokenKind) :
    Keeps good bound input (parameterList opening closing) := by
  have hrest : ∀ opening? params, Keeps good bound input (do
      let closing? ← Parse.expect closing
      return ParameterList.mk opening? params closing?) :=
    fun _ _ => (expect _).bind fun _ => .pure _
  refine (expect _).bind fun _ => (ask _).bind fun _ => .ite ((ask _).bind fun n => ?_) ?_
  · exact (parametersWithin hexpr n).bind fun _ => hrest _ _
  · exact hrest _ _

theorem arrowBody : Keeps good bound input arrowBody :=
  (noteHere _).bind fun _ => advance.bind fun _ => (hexpr .full).bind fun _ =>
    (expect _).bind fun _ => .pure _

theorem memberBody : Keeps good bound input memberBody := by
  unfold Parse.memberBody
  refine (ask _).bind fun kind => ?_
  split
  · exact (block hexpr).map _
  · exact (arrowBody hexpr).map _
  · exact (expect _).map _

theorem accessor? : Keeps good bound input accessor? := by
  refine (many keywordModifier?).bind fun _ => (ask _).bind fun _ => .ite ?_ ?_
  · exact advance.bind fun _ => (memberBody hexpr).bind fun _ => .pure _
  · exact (noteHere _).bind fun _ =>
      (moveTo fun index => (Sentence.accessorBoundaryWithin_bounds _ 0 index).1).bind fun _ =>
        .pure _

theorem propertyBody : Keeps good bound input propertyBody := by
  refine (ask _).bind fun _ => .ite ((arrowBody hexpr).bind fun _ => .pure _) ?_
  exact (braced (many (unlessClosed (accessor? hexpr)))).bind fun _ => .pure _

variable (head : MemberHead)

theorem fieldDecl (type : TypeSyntax) : Keeps good bound input (fieldDecl head type) :=
  (declarators hexpr).bind fun _ => (expect _).bind fun _ =>
    (memberInfo head).bind fun _ => .pure _

theorem methodDecl (type : TypeSyntax) : Keeps good bound input (methodDecl head type) :=
  advance.bind fun _ => typeParameters?.bind fun _ =>
    (parameterList hexpr _ _).bind fun _ => (memberBody hexpr).bind fun _ =>
    (memberInfo head).bind fun _ => .pure _

theorem propertyDecl (type : TypeSyntax) : Keeps good bound input (propertyDecl head type) :=
  advance.bind fun _ => (propertyBody hexpr).bind fun _ =>
    (memberInfo head).bind fun _ => .pure _

theorem indexerDecl (type : TypeSyntax) : Keeps good bound input (indexerDecl head type) :=
  advance.bind fun _ => (parameterList hexpr _ _).bind fun _ =>
    (propertyBody hexpr).bind fun _ => (memberInfo head).bind fun _ => .pure _

theorem operatorDecl (type : TypeSyntax) : Keeps good bound input (operatorDecl head type) :=
  advance.bind fun _ => declaredOperator?.bind fun _ =>
    (parameterList hexpr _ _).bind fun _ => (memberBody hexpr).bind fun _ =>
    (memberInfo head).bind fun _ => .pure _

omit hexpr in
theorem abandoned (type : TypeSyntax) : Keeps good bound input (abandoned head type) :=
  (noteHere _).bind fun _ => (memberInfo head).bind fun _ => .pure _

theorem typedMember : Keeps good bound input (typedMember head) := by
  unfold Parse.typedMember
  refine (qualifiedType _).bind fun type => .ite ?_ ((ask _).bind fun kind => ?_)
  · exact (memberInfo head).bind fun _ => .pure _
  · split
    · exact indexerDecl hexpr head type
    · exact .ite (abandoned head type) (operatorDecl hexpr head type)
    · refine (ask _).bind fun follow => ?_
      split
      · exact methodDecl hexpr head type
      · exact methodDecl hexpr head type
      · exact propertyDecl hexpr head type
      · exact propertyDecl hexpr head type
      · exact .ite (methodDecl hexpr head type) (fieldDecl hexpr head type)
    · exact abandoned head type

theorem conversionDecl : Keeps good bound input (conversionDecl head) :=
  advance.bind fun _ => advance.bind fun _ => type.bind fun _ =>
    (parameterList hexpr _ _).bind fun _ => (memberBody hexpr).bind fun _ =>
    (memberInfo head).bind fun _ => .pure _

theorem constructorDecl : Keeps good bound input (constructorDecl head) :=
  advance.bind fun _ => (parameterList hexpr _ _).bind fun _ =>
    (memberBody hexpr).bind fun _ => (memberInfo head).bind fun _ => .pure _

theorem delegateDecl : Keeps good bound input (delegateDecl head) :=
  advance.bind fun _ => refQualifier?.bind fun _ => (qualifiedType _).bind fun _ =>
    (expect _).bind fun _ => typeParameters?.bind fun _ =>
    (parameterList hexpr _ _).bind fun _ => (expect _).bind fun _ =>
    (memberInfo head).bind fun _ => .pure _

omit hexpr in
theorem typeDecl {members : Parse (List Member)} (hmembers : Keeps good bound input members)
    (kind : TypeDeclKind) : Keeps good bound input (typeDecl members head kind) :=
  advance.bind fun _ => (expect _).bind fun _ => typeParameters?.bind fun _ =>
    baseTypes.bind fun _ => (braced hmembers).bind fun _ => (eat _).bind fun _ =>
    (memberInfo head).bind fun _ => .pure _

omit hexpr in
theorem namespaceDecl {members : Parse (List Member)} (hmembers : Keeps good bound input members) :
    Keeps good bound input (namespaceDecl members head) :=
  advance.bind fun _ => type.bind fun _ => (braced hmembers).bind fun _ =>
    (memberInfo head).bind fun _ => .pure _

omit hexpr in
theorem usingDirective : Keeps good bound input (usingDirective head) :=
  advance.bind fun _ => clauseType.bind fun _ => (expect _).bind fun _ =>
    (memberInfo head).bind fun _ => .pure _

variable {nested : ParseContext → Parse (List Member)} {context : ParseContext}

theorem declaredMember (hnested : ∀ context, Keeps good bound input (nested context)) :
    Keeps good bound input (declaredMember nested context head) := by
  unfold Parse.declaredMember
  refine .ite (typedMember hexpr head) ((ask _).bind fun kind => ?_)
  split
  · exact typeDecl head (hnested _) _
  · exact typeDecl head (hnested _) _
  · exact typeDecl head (hnested _) _
  · exact delegateDecl hexpr head
  · exact (ask _).bind fun _ => .ite (conversionDecl hexpr head) (typedMember hexpr head)
  · exact (ask _).bind fun _ => .ite (conversionDecl hexpr head) (typedMember hexpr head)
  · exact (ask _).bind fun _ => .ite (constructorDecl hexpr head) (typedMember hexpr head)
  · exact typedMember hexpr head

theorem member (hnested : ∀ context, Keeps good bound input (nested context)) :
    Keeps good bound input (member nested context) := by
  unfold Parse.member
  refine (ask _).bind fun kind => ?_
  split
  · exact (ask _).bind fun _ => usingDirective _
  · exact (ask _).bind fun _ => namespaceDecl _ (hnested _)
  · exact memberHead.bind fun head => declaredMember hexpr head hnested

omit hexpr in
theorem skippedMember : Keeps good bound input (skippedMember context) :=
  (ask _).bind fun _ => (noteHere _).bind fun _ => advance.bind fun _ =>
    (moveTo fun index => (Sentence.memberBoundaryWithin_bounds _ _ 0 index).1).bind fun _ =>
    (ask _).bind fun _ => .pure _

theorem someMember (hnested : ∀ context, Keeps good bound input (nested context)) :
    Keeps good bound input (someMember nested context) := by
  have hrest : ∀ start member, Keeps good bound input (do
      if (← position) == start then
        let _ ← Parse.advance
        return Member.skipped ⟨.empty, ← rangeFrom start⟩
      else return member) := fun _ _ =>
    (ask _).bind fun _ => .ite (advance.bind fun _ => (ask _).bind fun _ => .pure _) (.pure _)
  exact (ask _).bind fun _ => (ask _).bind fun _ =>
    .ite ((member hexpr hnested).bind (hrest _)) (skippedMember.bind (hrest _))

theorem membersWithin (n : Nat) (context : ParseContext) :
    Keeps good bound input (membersWithin n context) := by
  induction n generalizing context with
  | zero => exact .pure _
  | succ n ih => exact many (whenever (ask _) (someMember hexpr ih))

theorem compilationUnit : Keeps good bound input compilationUnit := by
  have hmembers : Keeps good bound input (members .none) :=
    (ask _).bind fun n => membersWithin hexpr n .none
  exact hmembers.bind fun _ => (ask _).bind fun _ => .pure _

end Member
end TolerantSyntax.Parse.Keeps
