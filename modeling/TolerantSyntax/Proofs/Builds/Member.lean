import TolerantSyntax.Proofs.Builds.Part
import TolerantSyntax.Proofs.Reads.Member
import TolerantSyntax.SyntaxTree

/-!
# Members are built as they stand

The range of a member is the step that reads it.  A member that takes no symbol has no
expression, so nothing is lost when a list skips a symbol in its place.
-/

namespace TolerantSyntax

open Layout (Builds)

/-- The range of the member is the step, and its parts are built on it. -/
structure Member.BuiltOn (member : Member) (before after : ParseState) : Prop where
  range : member.range = ⟨before.position, after.position⟩
  parts : Builds member.parts before after
  moves : before.position < after.position ∨ Layout.exprsOf member.parts = []

theorem Member.BuiltOn.layout {member : Member} {before after : ParseState}
    (h : member.BuiltOn before after) : Builds [member.layout] before after := by
  rw [Member.layout, h.range]
  exact h.parts.node

structure MemberHead.BuiltOn (head : MemberHead) (before after : ParseState) : Prop where
  start : head.start = before.position
  parts : ∃ middle, Builds head.modifiers.parts before middle ∧
    RefQualifier.BuiltOn? head.qualifier? middle after

theorem MemberHead.BuiltOn.modifiers {head : MemberHead} {before after : ParseState}
    (h : head.BuiltOn before after) (hnone : head.qualifier?.isSome = false) :
    Builds head.modifiers.parts before after := by
  obtain ⟨middle, hmodifiers, hqualifier⟩ := h.parts
  have hqualifier? : head.qualifier? = none := by simpa using hnone
  rw [hqualifier?] at hqualifier
  cases hqualifier
  exact hmodifiers

namespace Parse

variable {input : Input} {state origin : ParseState} {head : MemberHead} {type : TypeSyntax}

theorem modifierEntry?_builds :
    GivesSome modifierEntry? input fun entry => [.token entry.token] := by
  intro state
  unfold modifierEntry?
  refine .ask fun modifier? hmodifier => ?_
  cases modifier? with
  | none => exact .pure .refl
  | some modifier =>
      refine (advance_token (modifierAt?_ne_eof hmodifier)).bind fun token after htoken => ?_
      exact .pure htoken

theorem memberHead_builds :
    Ends memberHead input state fun head after => head.BuiltOn state after := by
  unfold memberHead
  refine .position ((modifiers_build modifierEntry?_builds state).bind
    fun entries after₁ hentries => ?_)
  refine refQualifier?_builds.bind fun qualifier? after₂ hqualifier => ?_
  exact .pure ⟨rfl, after₁, hentries, hqualifier⟩

theorem memberInfo_ends (hstart : head.start = origin.position)
    (hle : origin.position ≤ state.position) :
    Ends (memberInfo head) input state fun info after =>
      info = ⟨head.modifiers, ⟨origin.position, state.position⟩⟩ ∧ after = state := by
  unfold memberInfo
  refine rangeFrom_step (by omega) (.pure ⟨?_, rfl⟩)
  rw [hstart]

theorem memberInfo_builds {make : MemberInfo → Member} {middle : ParseState}
    {front back : List Layout} (hstart : head.start = origin.position)
    (hinfo : ∀ info, (make info).info = info)
    (hparts : ∀ range, (make ⟨head.modifiers, range⟩).parts = front ++ back)
    (hfront : Builds front origin middle) (hmoved : origin.position < middle.position)
    (hback : Builds back middle state) :
    Ends (memberInfo head >>= fun info => pure (make info)) input state fun member after =>
      member.BuiltOn origin after := by
  have hforward := hback.forward
  refine (memberInfo_ends hstart (by omega)).bind ?_
  rintro _ _ ⟨rfl, rfl⟩
  refine .pure ⟨?_, ?_, .inl (by omega)⟩
  · rw [Member.range, hinfo]
  · rw [hparts]
    exact hfront.trans hback

/-! ## Members -/

section Typed

variable (hstart : head.start = origin.position)
  (htype : Builds (head.modifiers.parts ++ [type.layout]) origin state)
  (hmoved : origin.position < state.position)
include hstart htype hmoved

theorem fieldDecl_builds :
    Ends (fieldDecl head type) input state fun member after => member.BuiltOn origin after := by
  unfold fieldDecl
  refine (declarators_build state).bind fun declarators after₁ hdeclarators => ?_
  refine (expect_builds (by decide) after₁).bind fun semicolon? after₂ hsemicolon => ?_
  exact memberInfo_builds hstart (fun _ => rfl) (fun _ => by simp [Member.parts]) htype hmoved
    (hdeclarators.trans hsemicolon)

theorem methodDecl_builds (hkind : input.sentence.kindAt state.position ≠ .eof) :
    Ends (methodDecl head type) input state fun member after =>
      member.BuiltOn origin after := by
  unfold methodDecl
  refine (advance_token hkind).bind fun name after₁ hname => ?_
  refine (typeParameters?_builds after₁).bind fun typeParams? after₂ htypeParams => ?_
  refine (roundParameters_builds after₂).bind fun params after₃ hparams => ?_
  refine (memberBody_builds after₃).bind fun body after₄ hbody => ?_
  exact memberInfo_builds hstart (fun _ => rfl) (fun _ => by simp [Member.parts]) htype hmoved
    (hname.trans (htypeParams.trans (hparams.trans hbody)))

theorem propertyDecl_builds (hkind : input.sentence.kindAt state.position ≠ .eof) :
    Ends (propertyDecl head type) input state fun member after =>
      member.BuiltOn origin after := by
  unfold propertyDecl
  refine (advance_token hkind).bind fun name after₁ hname => ?_
  refine (propertyBody_builds after₁).bind fun body after₂ hbody => ?_
  exact memberInfo_builds hstart (fun _ => rfl) (fun _ => by simp [Member.parts]) htype hmoved
    (hname.trans hbody)

theorem indexerDecl_builds (hkind : input.sentence.kindAt state.position ≠ .eof) :
    Ends (indexerDecl head type) input state fun member after =>
      member.BuiltOn origin after := by
  unfold indexerDecl
  refine (advance_token hkind).bind fun this after₁ hthis => ?_
  refine (parameterList_builds (by decide) (by decide) after₁).bind
    fun params after₂ hparams => ?_
  refine (propertyBody_builds after₂).bind fun body after₃ hbody => ?_
  exact memberInfo_builds hstart (fun _ => rfl) (fun _ => by simp [Member.parts]) htype hmoved
    (hthis.trans (hparams.trans hbody))

omit hstart htype hmoved in
theorem declaredOperator?_builds :
    Ends declaredOperator? input state fun op? after =>
      Builds (operatorTokens op?) state after := by
  unfold declaredOperator?
  refine .position (.askIf (fun _ => ?_) fun _ => .askIf (fun hop => ?_) fun _ => ?_)
  · have hmove : Ends (moveTo fun _ index => index + 2) input state fun _ after =>
        after.position = state.position + 2 ∧
          Builds [.token state.position, .token (state.position + 1)] state after :=
      ⟨rfl, Builds.token.trans (@Builds.token { state with position := state.position + 1 })⟩
    refine hmove.bind ?_
    rintro _ after ⟨hat, htokens⟩
    refine rangeFrom_step (by omega) (.pure ?_)
    simpa [operatorTokens, TokenRange.indices, TokenRange.length, hat, List.range'] using htokens
  · refine (advance_token (ne_eof_of_contains (by simp [TokenSet.overloadableOperators]) hop)).bind
      fun token after htoken => ?_
    refine .pure ?_
    simpa [operatorTokens, TokenRange.indices, TokenRange.length, TokenRange.single] using htoken
  · exact .noteHere (.pure (Builds.refl.noted rfl))

theorem operatorDecl_builds (hkind : input.sentence.kindAt state.position ≠ .eof) :
    Ends (operatorDecl head type) input state fun member after =>
      member.BuiltOn origin after := by
  unfold operatorDecl
  refine (advance_builds hkind).bind ?_
  rintro _ after₁ ⟨rfl, hnext, hkeyword⟩
  refine (declaredOperator?_covers.and declaredOperator?_builds).bind ?_
  rintro op? after₂ ⟨⟨hop, -⟩, htokens⟩
  refine (roundParameters_builds after₂).bind fun params after₃ hparams => ?_
  refine (memberBody_builds after₃).bind fun body after₄ hbody => ?_
  have hbehind : op?.any (·.start < state.position) = false := by
    cases op? with
    | none => rfl
    | some op =>
        have hstart := hop op rfl
        simp only [Option.any_some, decide_eq_false_iff_not]
        omega
  exact memberInfo_builds hstart (fun _ => rfl)
    (fun _ => by simp [Member.parts, operatorParts, hbehind]) htype hmoved
    (hkeyword.trans (htokens.trans (hparams.trans hbody)))

theorem abandoned_builds :
    Ends (abandoned head type) input state fun member after =>
      member.BuiltOn origin after := by
  refine .noteHere (memberInfo_builds hstart (fun _ => rfl) (fun _ => ?_) htype hmoved
    (Builds.refl.noted rfl))
  simp [Member.parts]

end Typed

theorem typedMember_builds (hhead : head.BuiltOn origin state) :
    Ends (typedMember head) input state fun member after => member.BuiltOn origin after := by
  have hstart := hhead.start
  obtain ⟨middle, hmodifiers, hqualifier⟩ := hhead.parts
  have hforward := hmodifiers.forward
  unfold typedMember
  refine (qualifiedType_builds hqualifier).bind ?_
  rintro type after ⟨hmoves, htype⟩
  have hdecl := hmodifiers.trans htype.layout
  refine .ite (fun hmissing => ?_) fun hpresent => ?_
  · cases hbyRef : type.isByRef with
    | true =>
        have hmoved := hmoves
          (by cases type <;> simp_all [TypeSyntax.isByRef, TypeSyntax.isMissing])
        exact memberInfo_builds hstart (fun _ => rfl) (fun _ => by simp [Member.parts]) hdecl
          (by omega) .refl
    | false =>
        have hnone : type.parts = [] := by
          cases type <;> simp_all [TypeSyntax.isByRef, TypeSyntax.valueType,
            TypeSyntax.isMissing, TypeSyntax.parts]
        have hparts := hmodifiers.trans htype.parts
        rw [hnone, List.append_nil] at hparts
        refine (memberInfo_ends hstart hparts.forward).bind ?_
        rintro _ _ ⟨rfl, rfl⟩
        refine .pure ⟨rfl, ?_, .inr ?_⟩
        · simpa [Member.parts] using hparts
        · simpa [Member.parts] using head.modifiers.exprsOf_parts
  · have hmoved := hmoves (by
      cases type <;> simp_all [TypeSyntax.valueType, TypeSyntax.isMissing])
    replace hmoved : origin.position < after.position := by omega
    refine .kind fun kind hkind => ?_
    split
    · exact indexerDecl_builds hstart hdecl hmoved (by simp [hkind])
    · refine .ite (fun _ => abandoned_builds hstart hdecl hmoved) fun _ => ?_
      exact operatorDecl_builds hstart hdecl hmoved (by simp [hkind])
    · have hname : input.sentence.kindAt after.position ≠ .eof := by simp [hkind]
      refine .ask fun next _ => ?_
      split
      · exact methodDecl_builds hstart hdecl hmoved hname
      · exact methodDecl_builds hstart hdecl hmoved hname
      · exact propertyDecl_builds hstart hdecl hmoved hname
      · exact propertyDecl_builds hstart hdecl hmoved hname
      · refine .ite (fun _ => methodDecl_builds hstart hdecl hmoved hname) fun _ => ?_
        exact fieldDecl_builds hstart hdecl hmoved
    · exact abandoned_builds hstart hdecl hmoved

section Keyword

variable (hhead : head.BuiltOn origin state) (hnone : head.qualifier?.isSome = false)
  (hkind : input.sentence.kindAt state.position ≠ .eof)
include hhead hnone hkind

theorem advance_front :
    Ends advance input state fun index after =>
      index = state.position ∧ after.position = state.position + 1 ∧
        origin.position < after.position ∧
        Builds (head.modifiers.parts ++ [.token index]) origin after := by
  have hmodifiers := hhead.modifiers hnone
  have hforward := hmodifiers.forward
  refine (advance_builds hkind).imp ?_
  rintro index after ⟨hindex, hnext, htoken⟩
  exact ⟨hindex, hnext, by omega, hmodifiers.trans htoken⟩

theorem conversionDecl_builds
    (hoperator : input.sentence.kindAt (state.position + 1) = .operatorKw) :
    Ends (conversionDecl head) input state fun member after =>
      member.BuiltOn origin after := by
  unfold conversionDecl
  refine (advance_front hhead hnone hkind).bind ?_
  rintro _ after₁ ⟨rfl, hnext, hmoved, hop⟩
  refine (advance_builds (by simp [hnext, hoperator])).bind ?_
  rintro _ after₂ ⟨rfl, -, hkeyword⟩
  refine (type_gives after₂).bind fun type after₃ htype => ?_
  refine (roundParameters_builds after₃).bind fun params after₄ hparams => ?_
  refine (memberBody_builds after₄).bind fun body after₅ hbody => ?_
  have hparts : operatorParts type after₁.position (some (.single state.position)) =
      [.token state.position, .token after₁.position, type.layout] := by
    have hlt : state.position < after₁.position := by omega
    simp [operatorParts, operatorTokens, TokenRange.single, TokenRange.indices,
      TokenRange.length, hlt]
  exact memberInfo_builds hhead.start (fun _ => rfl)
    (fun _ => by simp [Member.parts, hparts]) hop hmoved
    (hkeyword.trans (htype.trans (hparams.trans hbody)))

theorem constructorDecl_builds :
    Ends (constructorDecl head) input state fun member after =>
      member.BuiltOn origin after := by
  unfold constructorDecl
  refine (advance_front hhead hnone hkind).bind ?_
  rintro name after₁ ⟨-, -, hmoved, hname⟩
  refine (roundParameters_builds after₁).bind fun params after₂ hparams => ?_
  refine (memberBody_builds after₂).bind fun body after₃ hbody => ?_
  exact memberInfo_builds hhead.start (fun _ => rfl) (fun _ => by simp [Member.parts]) hname
    hmoved (hparams.trans hbody)

theorem delegateDecl_builds :
    Ends (delegateDecl head) input state fun member after => member.BuiltOn origin after := by
  unfold delegateDecl
  refine (advance_front hhead hnone hkind).bind ?_
  rintro keyword after₁ ⟨-, -, hmoved, hkeyword⟩
  refine refQualifier?_builds.bind fun qualifier? after₂ hqualifier => ?_
  refine (qualifiedType_builds hqualifier).bind ?_
  rintro type after₃ ⟨-, htype⟩
  refine (expect_builds (by decide) after₃).bind fun name? after₄ hname => ?_
  refine (typeParameters?_builds after₄).bind fun typeParams? after₅ htypeParams => ?_
  refine (roundParameters_builds after₅).bind fun params after₆ hparams => ?_
  refine (expect_builds (by decide) after₆).bind fun semicolon? after₇ hsemicolon => ?_
  exact memberInfo_builds hhead.start (fun _ => rfl) (fun _ => by simp [Member.parts]) hkeyword
    hmoved (htype.layout.trans (hname.trans (htypeParams.trans (hparams.trans hsemicolon))))

theorem typeDecl_builds {members : Parse (List Member)}
    (hmembers : Gives members input (·.map (·.layout))) (kind : TypeDeclKind) :
    Ends (typeDecl members head kind) input state fun member after =>
      member.BuiltOn origin after := by
  unfold typeDecl
  refine (advance_front hhead hnone hkind).bind ?_
  rintro keyword after₁ ⟨-, -, hmoved, hkeyword⟩
  refine (expect_builds (by decide) after₁).bind fun name? after₂ hname => ?_
  refine (typeParameters?_builds after₂).bind fun typeParams? after₃ htypeParams => ?_
  refine (baseTypes_build after₃).bind fun bases after₄ hbases => ?_
  refine (braced_builds rfl hmembers after₄).bind ?_
  rintro ⟨opening?, list, closing?⟩ after₅ hbody
  refine (eat_builds (by decide) after₅).bind fun semicolon? after₆ hsemicolon => ?_
  refine memberInfo_builds hhead.start (fun _ => rfl) (fun _ => ?_) hkeyword hmoved
    (hname.trans (htypeParams.trans (hbases.trans (hbody.trans hsemicolon))))
  simp [Member.parts, TypeHead.parts, memberLayouts_eq]

theorem namespaceDecl_builds {members : Parse (List Member)}
    (hmembers : Gives members input (·.map (·.layout))) :
    Ends (namespaceDecl members head) input state fun member after =>
      member.BuiltOn origin after := by
  unfold namespaceDecl
  refine (advance_front hhead hnone hkind).bind ?_
  rintro keyword after₁ ⟨-, -, hmoved, hkeyword⟩
  refine (type_gives after₁).bind fun name after₂ hname => ?_
  refine (braced_builds rfl hmembers after₂).bind ?_
  rintro ⟨opening?, list, closing?⟩ after₃ hbody
  refine memberInfo_builds hhead.start (fun _ => rfl) (fun _ => ?_) hkeyword hmoved
    (hname.trans hbody)
  simp [Member.parts, memberLayouts_eq]

theorem usingDirective_builds :
    Ends (usingDirective head) input state fun member after =>
      member.BuiltOn origin after := by
  unfold usingDirective
  refine (advance_front hhead hnone hkind).bind ?_
  rintro keyword after₁ ⟨-, -, hmoved, hkeyword⟩
  refine (clauseType_builds after₁).bind fun name after₂ hname => ?_
  refine (expect_builds (by decide) after₂).bind fun semicolon? after₃ hsemicolon => ?_
  exact memberInfo_builds hhead.start (fun _ => rfl) (fun _ => by simp [Member.parts]) hkeyword
    hmoved (hname.trans hsemicolon)

end Keyword

section Members

variable {nested : ParseContext → Parse (List Member)}

theorem declaredMember_builds (hnested : ∀ context, Gives (nested context) input (·.map (·.layout)))
    (hhead : head.BuiltOn origin state) (context : ParseContext) :
    Ends (declaredMember nested context head) input state fun member after =>
      member.BuiltOn origin after := by
  unfold declaredMember
  refine .ite (fun _ => typedMember_builds hhead) fun hqualifier => ?_
  have hnone : head.qualifier?.isSome = false := by simpa using hqualifier
  refine .kind fun kind hkind => ?_
  have hconversion : kind ≠ .eof → Ends (do
      if (← peek 1) == .operatorKw then conversionDecl head else typedMember head) input state
      fun member after => member.BuiltOn origin after := fun hkind' =>
    .ask fun next hnext => .ite
      (fun hoperator => conversionDecl_builds hhead hnone (by rw [hkind]; exact hkind')
        (hnext.trans (by simpa using hoperator)))
      fun _ => typedMember_builds hhead
  split
  · exact typeDecl_builds hhead hnone (by simp [hkind]) (hnested _) _
  · exact typeDecl_builds hhead hnone (by simp [hkind]) (hnested _) _
  · exact typeDecl_builds hhead hnone (by simp [hkind]) (hnested _) _
  · exact delegateDecl_builds hhead hnone (by simp [hkind])
  · exact hconversion nofun
  · exact hconversion nofun
  · refine .ask fun next _ => .ite (fun _ => ?_) fun _ => typedMember_builds hhead
    exact constructorDecl_builds hhead hnone (by simp [hkind])
  · exact typedMember_builds hhead

theorem member_builds (hnested : ∀ context, Gives (nested context) input (·.map (·.layout)))
    (context : ParseContext) :
    Ends (member nested context) input state fun member after =>
      member.BuiltOn state after := by
  have hhead : MemberHead.BuiltOn ⟨state.position, .empty, none⟩ state state :=
    ⟨rfl, state, .refl, rfl⟩
  unfold member
  refine .kind fun kind hkind => ?_
  split
  · exact .position (usingDirective_builds hhead rfl (by simp [hkind]))
  · exact .position (namespaceDecl_builds hhead rfl (by simp [hkind]) (hnested _))
  · exact memberHead_builds.bind fun head after hhead =>
      declaredMember_builds hnested hhead context

theorem skippedMember_builds (context : ParseContext) :
    Ends (skippedMember context) input state fun member after =>
      member.BuiltOn state after := by
  unfold skippedMember
  refine .position ((noteHere_builds ?_).bind ?_)
  · split <;> rfl
  · rintro _ after₁ ⟨-, hnoted⟩
    refine (advance_passes after₁).bind fun _ after₂ hskip => ?_
    refine (moveTo_builds (hnoted.trans hskip) fun index =>
      (Sentence.memberBoundaryWithin_bounds _ _ 0 index).1).bind fun _ after₃ hmember => ?_
    exact rangeFrom_step hmember.forward (.pure ⟨rfl, hmember, .inr rfl⟩)

theorem someMember_builds (hnested : ∀ context, Gives (nested context) input (·.map (·.layout)))
    (context : ParseContext) :
    Gives (someMember nested context) input fun member => [member.layout] := by
  intro state
  have hmember : ∀ starts : Bool,
      Ends (if starts then member nested context else skippedMember context) input state
        fun member after => member.BuiltOn state after := fun starts =>
    .ite (fun _ => member_builds hnested context) fun _ => skippedMember_builds context
  unfold someMember
  refine .position (.ask fun starts _ => (hmember starts).join fun member after hmember => ?_)
  refine .position (.ite (fun hsame => ?_) fun _ => .pure hmember.layout)
  have hat : after.position = state.position := by simpa using hsame
  have hexprs := hmember.moves.resolve_left (by omega)
  have hdropped := hmember.parts.drop hexprs
    (hmember.parts.fits.usesOf_eq_nil (Nat.le_of_eq hat))
  refine (advance_passes after).bind fun _ last hskip => ?_
  have hskipped := hdropped.trans hskip
  exact rangeFrom_step hskipped.forward (.pure hskipped.node)

end Members

theorem membersWithin_builds (n : Nat) (context : ParseContext) :
    Gives (membersWithin n context) input (·.map (·.layout)) := by
  induction n generalizing context with
  | zero => exact fun state => .pure .refl
  | succ n ih =>
      have hitem : GivesSome
          (whenever (hasMember context) (someMember (membersWithin n) context)) input
          fun member => [member.layout] :=
        whenever_builds fun state _ => someMember_builds ih context state
      simpa only [membersWithin, List.map_eq_flatMap] using many_builds hitem

theorem compilationUnit_builds :
    Ends compilationUnit input state fun unit after =>
      unit.eof = after.position ∧ Builds (unit.members.map (·.layout)) state after := by
  unfold compilationUnit members
  refine Ends.bind (.left (membersWithin_builds _ .none state)) fun members after hmembers => ?_
  exact .position (.pure ⟨rfl, hmembers⟩)

end Parse

/-! ## Whole trees -/

namespace SyntaxTree

open Layout (Fits exprsOf usesOf)

variable (sentence : Sentence)

theorem ofSentence_builds :
    (ofSentence sentence).1.eof = (ofSentence sentence).2.position ∧
      Layout.Builds ((ofSentence sentence).1.members.map (·.layout)) .start
        (ofSentence sentence).2 := Parse.compilationUnit_builds

theorem ofSentence_fits :
    Fits (ofSentence sentence).1.parts 0 ((ofSentence sentence).1.eof + 1) := by
  obtain ⟨heof, hmembers⟩ := ofSentence_builds sentence
  have hfits : Fits ((ofSentence sentence).1.members.map (·.layout)) 0
      (ofSentence sentence).1.eof := heof ▸ hmembers.fits
  exact hfits.append (.leaf (Nat.le_refl _) (.nil (Nat.le_refl _)))

theorem ofSentence_exprs :
    (ofSentence sentence).2.exprs.toList = exprsOf (ofSentence sentence).1.parts := by
  rw [(ofSentence_builds sentence).2.exprs, CompilationUnit.parts]
  simp [ParseState.start, ExprTable.empty, ExprTable.toList, Layout.token]

theorem ofSentence_numbered : (ofSentence sentence).2.Numbered :=
  (ofSentence_builds sentence).2.numbered rfl

theorem ofSentence_uses :
    (ofSentence sentence).2.uses = (ofSentence sentence).1.uses := by
  have hstart : ParseState.start.uses = 0 := rfl
  rw [(ofSentence_builds sentence).2.uses, hstart, Multiset.zero_add, CompilationUnit.uses,
    CompilationUnit.parts, Layout.usesOf_append]
  simp [Layout.token, usesOf, Leaf.use?]

end SyntaxTree
end TolerantSyntax
