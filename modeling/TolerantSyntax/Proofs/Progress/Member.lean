import TolerantSyntax.Proofs.Progress.Paired
import TolerantSyntax.Proofs.Recovery.Member

/-!
# Statements and members side by side

Statements are inside a statement behind its keyword or its `{`, and members are inside a member
behind its `{`.
-/

namespace TolerantSyntax.Parse

variable {input : Input} {state : ParseState} {floor : Nat}

section Stmts

variable {nested other : Parse Stmt} (hnested : PairedFrom floor nested other input)
include hnested

theorem blockOf_paired (hkind : input.sentence.kindAt state.position ≠ .eof)
    (hfloor : floor ≤ state.position + 1) :
    Paired (blockOf nested) (blockOf other) input state := by
  unfold blockOf
  refine .ask fun start _ => .advance hkind fun opening after₁ h₁ => ?_
  have hstmt : PairedFrom floor (unlessClosed nested) (unlessClosed other) input :=
    fun before hbefore => .whenever fun _ => hnested before hbefore
  refine (hstmt.many after₁ (by omega)).bind fun stmts _ _ => ?_
  exact .shared ((Scripted.expect _).bind fun _ => (Scripted.ask _).bind fun _ => .pure _)

theorem ifElse_paired (hkind : input.sentence.kindAt state.position ≠ .eof)
    (hfloor : floor ≤ state.position + 1) :
    Paired (ifElse nested) (ifElse other) input state := by
  unfold ifElse
  refine .ask fun start _ => .advance hkind fun keyword after₁ h₁ => ?_
  refine .after .condition fun condition after₂ h₂ => ?_
  refine (hnested after₂ (by omega)).bind fun whenTrue after₃ h₃ => ?_
  refine .after (.eat _) fun else? after₄ h₄ => ?_
  split
  · exact .after (.pure none) fun whenFalse? _ _ => .shared ((Scripted.ask _).bind fun _ => .pure _)
  · refine ((hnested after₄ (by omega)).map some).bind fun whenFalse? _ _ => ?_
    exact .shared ((Scripted.ask _).bind fun _ => .pure _)

theorem whileLoop_paired (hkind : input.sentence.kindAt state.position ≠ .eof)
    (hfloor : floor ≤ state.position + 1) :
    Paired (whileLoop nested) (whileLoop other) input state := by
  unfold whileLoop
  refine .ask fun start _ => .advance hkind fun keyword after₁ h₁ => ?_
  refine .after .condition fun condition after₂ h₂ => ?_
  refine (hnested after₂ (by omega)).bind fun body _ _ => ?_
  exact .shared ((Scripted.ask _).bind fun _ => .pure _)

theorem stmtStep_paired (hfloor : floor ≤ state.position + 1) :
    Paired (stmtStep nested) (stmtStep other) input state := by
  unfold stmtStep
  refine .kind fun kind hkind => ?_
  split
  · exact (blockOf_paired hnested (by simp [hkind]) hfloor).bind fun block _ _ => .pure _
  · exact .shared (Scripted.advance.bind fun _ => .pure _)
  · exact .shared .returnStmt
  · exact .shared .throwStmt
  · exact ifElse_paired hnested (by simp [hkind]) hfloor
  · exact whileLoop_paired hnested (by simp [hkind]) hfloor
  · exact .shared .declarationStmt
  · exact .shared .declarationStmt
  · exact .shared .declarationStmt
  · refine .ite (fun _ => .shared .skippedStmt) fun _ => ?_
    exact .shared (Scripted.startsDeclaration.bind fun _ => .ite .declarationStmt .expressionStmt)

end Stmts

section Members

variable {members others : Parse (List Member)}

theorem typeDecl_stepped (h : PairedFrom floor members others input) (head : MemberHead)
    (kind : TypeDeclKind) (hkind : input.sentence.kindAt state.position ≠ .eof)
    (hfloor : floor ≤ state.position + 1) :
    Stepped (typeDecl members head kind) (typeDecl others head kind) input state := by
  unfold typeDecl
  refine .advance hkind fun keyword after₁ h₁ => .after (.expect _) fun name? after₂ h₂ => ?_
  refine .after .typeParameters? fun params? after₃ h₃ => ?_
  refine .after .baseTypes fun bases after₄ h₄ => ?_
  refine (h.braced (by omega)).bind fun body after₅ _ => ?_
  exact .shared ((Scripted.eat _).bind fun _ => (Scripted.memberInfo _).bind fun _ => .pure _)

theorem namespaceDecl_stepped (h : PairedFrom floor members others input) (head : MemberHead)
    (hkind : input.sentence.kindAt state.position ≠ .eof) (hfloor : floor ≤ state.position + 1) :
    Stepped (namespaceDecl members head) (namespaceDecl others head) input state := by
  unfold namespaceDecl
  refine .advance hkind fun keyword after₁ h₁ => .after .type fun name after₂ h₂ => ?_
  refine (h.braced (by omega)).bind fun body after₃ _ => ?_
  exact .shared ((Scripted.memberInfo _).bind fun _ => .pure _)

variable {nested other : ParseContext → Parse (List Member)}
  (hnested : ∀ context, PairedFrom floor (nested context) (other context) input)
include hnested

theorem declaredMember_paired (context : ParseContext) (head : MemberHead)
    (hfloor : floor ≤ state.position + 1) :
    Paired (declaredMember nested context head) (declaredMember other context head)
      input state := by
  have hmembers := hnested context.enterType
  unfold declaredMember
  refine .ite (fun _ => .shared (.typedMember head)) fun _ => .kind fun kind hkind => ?_
  split
  · exact (typeDecl_stepped hmembers head _ (by simp [hkind]) hfloor).paired
  · exact (typeDecl_stepped hmembers head _ (by simp [hkind]) hfloor).paired
  · exact (typeDecl_stepped hmembers head _ (by simp [hkind]) hfloor).paired
  · exact .shared (.delegateDecl head)
  · exact .shared ((Scripted.ask _).bind fun _ => .ite (.conversionDecl head) (.typedMember head))
  · exact .shared ((Scripted.ask _).bind fun _ => .ite (.conversionDecl head) (.typedMember head))
  · exact .shared ((Scripted.ask _).bind fun _ => .ite (.constructorDecl head) (.typedMember head))
  · exact .shared (.typedMember head)

theorem member_paired (context : ParseContext) (hfloor : floor ≤ state.position + 1) :
    Paired (member nested context) (member other context) input state := by
  unfold member
  refine .kind fun kind hkind => ?_
  split
  · exact .shared ((Scripted.ask _).bind fun _ => .usingDirective _)
  · refine .ask fun start _ => ?_
    exact (namespaceDecl_stepped (hnested context.enterNamespace) _ (by simp [hkind]) hfloor).paired
  · refine .after .memberHead fun head after₁ h₁ => ?_
    exact declaredMember_paired hnested context head (by omega)

theorem someMember_paired (context : ParseContext) (hfloor : floor ≤ state.position + 1) :
    Paired (someMember nested context) (someMember other context) input state := by
  unfold someMember
  refine .ask fun start _ => .ask fun starts _ => ?_
  refine .join (fun _ => member_paired hnested context hfloor)
    (fun _ => (Scripted.skippedMember.onward context).paired) fun member after₁ _ => ?_
  refine .ask fun here _ => .ite (fun _ => ?_) fun _ => .pure _
  exact .shared (Scripted.advance.bind fun _ => (Scripted.ask _).bind fun _ => .pure _)

theorem memberList_paired (context : ParseContext) (hfloor : floor ≤ state.position + 1) :
    Paired (many (whenever (hasMember context) (someMember nested context)))
      (many (whenever (hasMember context) (someMember other context))) input state := by
  have hmember : PairedFrom state.position
      (whenever (hasMember context) (someMember nested context))
      (whenever (hasMember context) (someMember other context)) input :=
    fun before hbefore => .whenever fun _ => someMember_paired hnested context (by omega)
  exact hmember.many state (Nat.le_refl _)

end Members
end TolerantSyntax.Parse
