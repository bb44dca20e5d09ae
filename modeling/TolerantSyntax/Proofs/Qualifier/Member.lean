import TolerantSyntax.Proofs.Qualifier.Part

/-!
# Members declare types by reference

A head takes modifiers up to its qualifier, so no modifier is part of one.  A list of members
that skips a symbol skips no `readonly` in front of a `ref`: a member would have taken it.
-/

namespace TolerantSyntax

/-- No modifier is a `readonly` in front of a `ref`. -/
theorem Sentence.whole_of_modifierAt {sentence : Sentence} {index : Nat} {modifier : Modifier}
    (h : sentence.modifierAt? index = some modifier) :
    sentence.kindAt index = .readonlyKw → sentence.kindAt (index + 1) ≠ .refKw := by
  intro hreadonly href
  simp [modifierAt?, qualifierAt, hreadonly, href] at h

theorem ParseContext.starts_readonly (context : ParseContext) :
    context.memberStart.contains .readonlyKw = true := by
  unfold memberStart
  split <;> simp [TokenSet.namespaceMemberStart, TokenSet.memberStart, TokenSet.modifierKeywords]

structure MemberHead.Before (sentence : Sentence) (place : Nat) (head : MemberHead) : Prop where
  modifiers : ∀ entry ∈ head.modifiers.entries, entry.token < place
  qualifier : ∀ qualifier ∈ head.qualifier?, qualifier.Behind sentence head.modifiers

namespace Parse

variable {input : Input} {state : ParseState} {place : Nat} {head : MemberHead}
  {type : TypeSyntax}

theorem modifierEntries_ends (hclear : input.sentence.Clear place state.position) :
    Ends (many modifierEntry?) input state fun entries after =>
      (∀ entry ∈ entries, entry.token < after.position) ∧
        input.sentence.Clear place after.position := by
  refine many_ends (fun (entries : List ModifierEntry) after =>
    (∀ entry ∈ entries, entry.token < after.position) ∧
      input.sentence.Clear place after.position) ?_ ⟨nofun, hclear⟩
  rintro entries before ⟨hentries, hbefore⟩
  unfold modifierEntry?
  refine .ask fun modifier? hmodifier => ?_
  cases modifier? with
  | none => exact .pure ⟨hentries, hbefore⟩
  | some modifier =>
      refine .advance (modifierAt?_ne_eof hmodifier) (.pure ⟨?_, ?_⟩)
      · refine List.forall_mem_append.mpr ⟨fun entry hentry => ?_, ?_⟩
        · exact Nat.lt_succ_of_lt (hentries entry hentry)
        · exact List.forall_mem_singleton.mpr (Nat.lt_succ_self _)
      · exact .behind (Nat.le_succ_of_le hbefore.le) (Sentence.whole_of_modifierAt hmodifier)

theorem memberHead_ends (hclear : input.sentence.Clear place state.position) :
    Ends memberHead input state fun head after =>
      head.Before input.sentence after.position ∧ input.sentence.Clear place after.position ∧
        (input.sentence.qualifierAt state.position = true → state.position < after.position) := by
  unfold memberHead
  refine .position ((modifierEntries_ends hclear.here).bind ?_)
  rintro entries before ⟨hentries, hbefore⟩
  have hforward := hbefore.le
  refine (refQualifier?_cases hbefore.here).bind ?_
  rintro qualifier? after (⟨qualifier, rfl, hwhole, hafter⟩ | ⟨rfl, rfl, hno⟩)
  · have hbehind := hafter.le
    have hle := hclear.le
    refine .pure ⟨⟨fun entry hentry => ?_, ?_⟩, hafter.from_le (by omega), fun _ => by omega⟩
    · have hentry := hentries entry hentry
      omega
    · rintro _ ⟨⟩
      exact ⟨before.position, hwhole, hentries⟩
  · refine .pure ⟨⟨hentries, nofun⟩, hbefore.from_le hclear.le, fun hyes => ?_⟩
    by_contra hsame
    obtain hat : after.position = state.position := by omega
    rw [hat, hyes] at hno
    cases hno

def SteadyMember (parse : Parse Member) (input : Input) (place : Nat) : Prop :=
  Steady parse input place fun member => input.sentence.Plain [.member member]

def KeptMember (input : Input) (place : Nat) : Member → ParseState → Prop :=
  Kept input place fun member => input.sentence.Plain [.member member]

def SteadyMembers (parse : Parse (List Member)) (input : Input) (place : Nat) : Prop :=
  Steady parse input place fun members => input.sentence.Plain (members.map .member)

theorem memberInfo_steady {make : MemberInfo → Member}
    (h : ∀ range, input.sentence.Placed (.member (make ⟨head.modifiers, range⟩))) :
    SteadyMember (memberInfo head >>= fun info => pure (make info)) input place :=
  fun _ hclear => ⟨.single rfl (h _), hclear⟩

/-! ## Members -/

theorem fieldDecl_steady (htype : input.sentence.Plain [.type type]) :
    SteadyMember (fieldDecl head type) input place := by
  unfold fieldDecl
  refine declarators_steady.bind fun declarators hdeclarators => ?_
  refine (expect_steady (by decide)).bind fun semicolon? _ => memberInfo_steady fun range => ?_
  exact .of_plain rfl (htype.append hdeclarators)

section Declared

variable (htype : input.sentence.Declares head.modifiers type)
  (hclear : input.sentence.Clear place state.position)
include htype hclear

theorem methodDecl_kept (hkind : input.sentence.kindAt state.position = .identifier) :
    Ends (methodDecl head type) input state (KeptMember input place) := by
  unfold methodDecl
  refine (advance_kept hclear (by simp [hkind])).onward fun name _ => ?_
  refine typeParameters?_steady.bind fun typeParams? _ => ?_
  refine roundParameters_steady.bind fun params hparams => ?_
  refine memberBody_steady.bind fun body hbody => memberInfo_steady fun range => ?_
  exact .of_declared htype rfl (hparams.append hbody)

theorem propertyDecl_kept (hkind : input.sentence.kindAt state.position = .identifier) :
    Ends (propertyDecl head type) input state (KeptMember input place) := by
  unfold propertyDecl
  refine (advance_kept hclear (by simp [hkind])).onward fun name _ => ?_
  refine propertyBody_steady.bind fun body hbody => memberInfo_steady fun range => ?_
  exact .of_declared htype rfl hbody

theorem indexerDecl_kept (hkind : input.sentence.kindAt state.position = .thisKw) :
    Ends (indexerDecl head type) input state (KeptMember input place) := by
  unfold indexerDecl
  refine (advance_kept hclear (by simp [hkind])).onward fun this _ => ?_
  refine (parameterList_steady (by decide) (by decide)).bind fun params hparams => ?_
  refine propertyBody_steady.bind fun body hbody => memberInfo_steady fun range => ?_
  exact .of_declared htype rfl (hparams.append hbody)

omit hclear in
theorem abandoned_steady : SteadyMember (abandoned head type) input place :=
  .noteHere (memberInfo_steady fun _ => .of_declared htype rfl .nil)

end Declared

theorem declaredOperator?_steady : Steady declaredOperator? input place fun _ => True := by
  intro state hclear
  unfold declaredOperator?
  refine .position (.askIf (fun hshift => ?_) fun _ => .askIf (fun hop => ?_) fun _ => ?_)
  · have hop : input.sentence.infixAt? state.position = some (.binary .shr) := by
      simp [Sentence.infixAt?, hshift]
    have hbehind : input.sentence.Clear place (state.position + 2) := hclear.operator hop
    exact .onward (moveTo_kept hbehind) fun _ _ => .rangeFrom fun range => .pure trivial
  · have hreadonly : input.sentence.kindAt state.position ≠ .readonlyKw := by
      intro hreadonly
      simp [hreadonly, TokenSet.overloadableOperators] at hop
    exact (advance_kept hclear hreadonly).onward fun _ _ => .pure trivial
  · exact .noteHere (.pure ⟨trivial, hclear⟩)

theorem operatorDecl_kept (htype : input.sentence.Plain [.type type])
    (hclear : input.sentence.Clear place state.position)
    (hkind : input.sentence.kindAt state.position = .operatorKw) :
    Ends (operatorDecl head type) input state (KeptMember input place) := by
  unfold operatorDecl
  refine (advance_kept hclear (by simp [hkind])).onward fun keyword _ => ?_
  refine declaredOperator?_steady.bind fun op? _ => ?_
  refine roundParameters_steady.bind fun params hparams => ?_
  refine memberBody_steady.bind fun body hbody => memberInfo_steady fun range => ?_
  exact .of_plain rfl (htype.append (hparams.append hbody))

theorem typedMember_steady
    (hqualifier : ∀ qualifier ∈ head.qualifier?, qualifier.Behind input.sentence head.modifiers) :
    SteadyMember (typedMember head) input place := by
  unfold typedMember
  refine (qualifiedType_steady hqualifier).bind fun type htype => .ite (fun _ => ?_) fun _ => ?_
  · refine memberInfo_steady fun range => ?_
    split
    · exact .of_declared htype rfl .nil
    · exact .of_plain rfl .nil
  refine .kind fun state kind hclear hkind => ?_
  split
  · exact indexerDecl_kept htype hclear hkind
  · refine .ite (fun _ => abandoned_steady htype state hclear) fun hbyRef => ?_
    exact operatorDecl_kept (htype.plain (by simpa using hbyRef)) hclear hkind
  · refine .ask fun next _ => ?_
    split
    · exact methodDecl_kept htype hclear hkind
    · exact methodDecl_kept htype hclear hkind
    · exact propertyDecl_kept htype hclear hkind
    · exact propertyDecl_kept htype hclear hkind
    · refine .ite (fun _ => methodDecl_kept htype hclear hkind) fun hbyRef => ?_
      exact fieldDecl_steady (htype.plain (by simpa using hbyRef)) state hclear
  · exact abandoned_steady htype state hclear

section Keyword

variable {members : Parse (List Member)}
  (hclear : input.sentence.Clear place state.position)
include hclear

theorem conversionDecl_kept {kind : TokenKind}
    (hkind : input.sentence.kindAt state.position = kind) (heof : kind ≠ .eof)
    (hreadonly : kind ≠ .readonlyKw)
    (hoperator : input.sentence.kindAt (state.position + 1) = .operatorKw) :
    Ends (conversionDecl head) input state (KeptMember input place) := by
  unfold conversionDecl
  refine .advance (by rwa [hkind]) ?_
  refine .onward (advance_kept (hclear.taken hkind hreadonly) (by simp [hoperator])) ?_
  refine fun keyword _ => type_steady.bind fun type htype => ?_
  refine roundParameters_steady.bind fun params hparams => ?_
  refine memberBody_steady.bind fun body hbody => memberInfo_steady fun range => ?_
  exact .of_plain rfl (htype.append (hparams.append hbody))

theorem constructorDecl_kept (hkind : input.sentence.kindAt state.position = .identifier) :
    Ends (constructorDecl head) input state (KeptMember input place) := by
  unfold constructorDecl
  refine (advance_kept hclear (by simp [hkind])).onward fun name _ => ?_
  refine roundParameters_steady.bind fun params hparams => ?_
  refine memberBody_steady.bind fun body hbody => memberInfo_steady fun range => ?_
  exact .of_plain rfl (hparams.append hbody)

theorem delegateDecl_kept (hhead : head.Before input.sentence place)
    (hkind : input.sentence.kindAt state.position = .delegateKw) :
    Ends (delegateDecl head) input state (KeptMember input place) := by
  unfold delegateDecl
  refine (advance_kept hclear (by simp [hkind])).onward fun keyword _ => ?_
  refine refQualifier?_steady.bind fun qualifier? hqualifier => ?_
  have hbehind : ∀ qualifier ∈ qualifier?, qualifier.Behind input.sentence head.modifiers :=
    fun qualifier hmem => ⟨place, hqualifier qualifier hmem, hhead.modifiers⟩
  refine (qualifiedType_steady hbehind).bind fun type htype => ?_
  refine (expect_steady (by decide)).bind fun name? _ => ?_
  refine typeParameters?_steady.bind fun typeParams? _ => ?_
  refine roundParameters_steady.bind fun params hparams => ?_
  refine (expect_steady (by decide)).bind fun semicolon? _ => memberInfo_steady fun range => ?_
  exact .of_declared htype rfl hparams

theorem typeDecl_kept (hmembers : SteadyMembers members input place)
    (hkind : input.sentence.kindAt state.position ≠ .readonlyKw) (kind : TypeDeclKind) :
    Ends (typeDecl members head kind) input state (KeptMember input place) := by
  unfold typeDecl
  refine (advance_kept hclear hkind).onward fun keyword _ => ?_
  refine (expect_steady (by decide)).bind fun name? _ => ?_
  refine typeParameters?_steady.bind fun typeParams? _ => ?_
  refine baseTypes_steady.bind fun bases hbases => (braced_steady .nil hmembers).bind ?_
  rintro ⟨opening?, list, closing?⟩ hlist
  refine (eat_steady (by decide)).bind fun semicolon? _ => memberInfo_steady fun range => ?_
  exact .of_plain rfl (hbases.append hlist)

theorem namespaceDecl_kept (hmembers : SteadyMembers members input place)
    (hkind : input.sentence.kindAt state.position = .namespaceKw) :
    Ends (namespaceDecl members head) input state (KeptMember input place) := by
  unfold namespaceDecl
  refine (advance_kept hclear (by simp [hkind])).onward fun keyword _ => ?_
  refine type_steady.bind fun name hname => (braced_steady .nil hmembers).bind ?_
  rintro ⟨opening?, list, closing?⟩ hlist
  exact memberInfo_steady fun range => .of_plain rfl (hname.append hlist)

theorem usingDirective_kept (hkind : input.sentence.kindAt state.position = .usingKw) :
    Ends (usingDirective head) input state (KeptMember input place) := by
  unfold usingDirective
  refine (advance_kept hclear (by simp [hkind])).onward fun keyword _ => ?_
  refine clauseType_steady.bind fun name hname => ?_
  refine (expect_steady (by decide)).bind fun semicolon? _ => memberInfo_steady fun range => ?_
  exact .of_plain rfl hname

end Keyword

theorem skippedMember_kept (context : ParseContext)
    (hclear : input.sentence.Clear place state.position)
    (hkind : input.sentence.kindAt state.position ≠ .readonlyKw) :
    Ends (skippedMember context) input state (KeptMember input place) := by
  have hmove : Steady (moveTo fun sentence => sentence.memberBoundary context.memberStart.contains)
      input place fun _ => True := fun state hclear =>
    moveTo_kept (Sentence.memberBoundaryWithin_clear context.starts_readonly _ 0 hclear)
  unfold skippedMember
  refine .position (.noteHere (.onward (advance_kept hclear hkind) fun _ _ => ?_))
  exact hmove.bind fun _ _ => .rangeFrom fun range => .pure (.single rfl (.of_plain rfl .nil))

section Members

variable {nested : ParseContext → Parse (List Member)}
  (hnested : ∀ context place, SteadyMembers (nested context) input place)
include hnested

theorem declaredMember_kept (hhead : head.Before input.sentence place)
    (hclear : input.sentence.Clear place state.position) (context : ParseContext) :
    Ends (declaredMember nested context head) input state (KeptMember input place) := by
  have htyped : Ends (typedMember head) input state (KeptMember input place) :=
    typedMember_steady hhead.qualifier state hclear
  unfold declaredMember
  refine .ite (fun _ => htyped) fun _ => .kind fun kind hkind => ?_
  have hconversion : kind ≠ .eof → kind ≠ .readonlyKw →
      Ends (peek 1 >>= fun next =>
        if next == .operatorKw then conversionDecl head else typedMember head) input state
        (KeptMember input place) := by
    intro heof hreadonly
    refine .ask fun next hnext => .ite (fun hoperator => ?_) fun _ => htyped
    exact conversionDecl_kept hclear hkind heof hreadonly
      (hnext.trans (by simpa using hoperator))
  split
  · exact typeDecl_kept hclear (hnested _ _) (by simp [hkind]) _
  · exact typeDecl_kept hclear (hnested _ _) (by simp [hkind]) _
  · exact typeDecl_kept hclear (hnested _ _) (by simp [hkind]) _
  · exact delegateDecl_kept hclear hhead hkind
  · exact hconversion nofun nofun
  · exact hconversion nofun nofun
  · exact .ask fun next _ => .ite (fun _ => constructorDecl_kept hclear hkind) fun _ => htyped
  · exact htyped

theorem member_ends (hclear : input.sentence.Clear place state.position)
    (context : ParseContext) :
    Ends (member nested context) input state fun member after =>
      KeptMember input place member after ∧
        (input.sentence.qualifierAt state.position = true → state.position < after.position) := by
  have hother : ∀ {kind} {parse : Parse Member}, input.sentence.kindAt state.position = kind →
      kind ≠ .refKw → kind ≠ .readonlyKw → Ends parse input state (KeptMember input place) →
      Ends parse input state fun member after => KeptMember input place member after ∧
        (input.sentence.qualifierAt state.position = true → state.position < after.position) := by
    intro kind parse hkind href hreadonly h
    refine h.imp fun member after hmember => ⟨hmember, fun hqualifier => ?_⟩
    cases kind <;> simp_all [Sentence.qualifierAt]
  unfold member
  refine .kind fun kind hkind => ?_
  split
  · exact .position (hother hkind (by decide) (by decide) (usingDirective_kept hclear hkind))
  · exact .position (hother hkind (by decide) (by decide)
      (namespaceDecl_kept hclear (hnested _ _) hkind))
  · refine (memberHead_ends hclear).bind ?_
    rintro head after ⟨hhead, hafter, hmoves⟩
    refine (declaredMember_kept hnested hhead hafter.here context).imp fun member last h => ?_
    have hforward : after.position ≤ last.position := h.2.le
    exact ⟨⟨h.1, h.2.from_le hafter.le⟩, fun hqualifier => by have := hmoves hqualifier; omega⟩

/-- Where nothing has been taken there is no qualifier, and the symbol is skipped. -/
theorem someMember_steady (context : ParseContext) :
    SteadyMember (someMember nested context) input place := by
  have hskipped : ∀ start, SteadyMember (rangeFrom start >>= fun range =>
      pure (.skipped ⟨.empty, range⟩)) input place := fun start =>
    .rangeFrom fun range => .pure (.single rfl (.of_plain rfl .nil))
  intro state hclear
  unfold someMember
  refine .position (.ask fun starts hstarts => ?_)
  have hmember : Ends (if starts then member nested context else skippedMember context) input
      state fun member after => KeptMember input place member after ∧
        (after.position = state.position →
          input.sentence.kindAt after.position = .readonlyKw →
            input.sentence.kindAt (after.position + 1) ≠ .refKw) := by
    refine .ite (fun _ => ?_) fun hno => ?_
    · refine (member_ends hnested hclear context).imp fun member after h => ⟨h.1, ?_⟩
      intro hsame hreadonly href
      rw [hsame] at hreadonly href
      have hmoves := h.2 (by simp [Sentence.qualifierAt, hreadonly, href])
      omega
    · have hreadonly : input.sentence.kindAt state.position ≠ .readonlyKw := by
        intro hreadonly
        rw [hreadonly, context.starts_readonly] at hstarts
        exact hno hstarts.symm
      refine (skippedMember_kept context hclear hreadonly).imp fun member after h => ⟨h, ?_⟩
      intro hsame
      rw [hsame]
      exact fun hyes => absurd hyes hreadonly
  refine hmember.join ?_
  rintro member after ⟨hmember, hwhole⟩
  refine .position (.ite (fun hsame => ?_) fun _ => .pure hmember)
  exact (advance_whole hmember.2 (hwhole (by simpa using hsame))).onward fun _ _ => hskipped _

end Members

theorem membersWithin_steady (n : Nat) (context : ParseContext) (place : Nat) :
    SteadyMembers (membersWithin n context) input place := by
  induction n generalizing context place with
  | zero => exact .pure .nil
  | succ n ih =>
      have hmember : SteadySome (whenever (hasMember context)
          (someMember (membersWithin n) context)) input place
          fun member => input.sentence.Plain [.member member] :=
        whenever_steady fun state hclear _ => someMember_steady ih context state hclear
      exact (many_steady hmember).imp fun _ h => .map h

theorem compilationUnit_placed :
    Ends compilationUnit input .start fun unit _ =>
      ∀ member ∈ unit.members, input.sentence.Placed (.member member) := by
  have hmembers : SteadyMembers (members .none) input 0 :=
    .left fun n => membersWithin_steady n .none 0
  refine (hmembers .start .start).bind fun members after hmembers => .position (.pure ?_)
  exact fun member hmem => (hmembers.1 _ (List.mem_map_of_mem hmem)).2

end Parse
end TolerantSyntax
