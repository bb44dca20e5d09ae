import TolerantSyntax.Proofs.Builds.Member
import TolerantSyntax.Proofs.Recovery.Part

/-!
# Members gather their entries

Inside of braces a member list ends at a `}`, so no member there starts with one.  Outside
of all braces a member that is skipped may: such a list only accounts for its entries.  The
symbols left bound the nesting of bodies, and behind a `{` there are fewer of them.
-/

namespace TolerantSyntax

open Sentence (Accounts Gathers)

namespace ParseContext

theorem isBraced_enterType (context : ParseContext) : context.enterType.isBraced = true := by
  simp [enterType, isBraced, replace, union, typeBody]

theorem isBraced_enterNamespace (context : ParseContext) :
    context.enterNamespace.isBraced = true := by
  simp [enterNamespace, isBraced, replace, union, namespaceBody]

theorem isPlain_of_memberStart {context : ParseContext} {kind : TokenKind}
    (h : context.memberStart.contains kind = true) : kind.isPlain = true := by
  unfold memberStart at h
  split at h
  · exact TokenSet.isPlain_of_contains (by decide +kernel) (by decide +kernel) h
  · exact TokenSet.isPlain_of_contains (by decide +kernel) (by decide +kernel) h

end ParseContext

structure Sentence.TakesMember (sentence : Sentence) (member : Member)
    (before after : ParseState) : Prop where
  range : member.range = ⟨before.position, after.position⟩
  gathers : sentence.Gathers member.entries before after
  moves : before.position < after.position ∨ Entry.faultsOf member.entries = []

theorem Sentence.Gathers.drop {sentence : Sentence} {entries : List Entry}
    {before after : ParseState} (h : sentence.Gathers entries before after)
    (hnone : Entry.faultsOf entries = []) : sentence.Gathers [] before after where
  forward := h.forward
  within := h.within
  told := by rw [h.told, hnone, Entry.faultsOf_nil]
  sound := h.sound
  inside := nofun
  closes := fun _ => h.closes (by rw [hnone]; exact nofun)
  kept := nofun

namespace Parse

variable {input : Input} {state origin : ParseState} {head : MemberHead} {type : TypeSyntax}

theorem modifierEntry?_collects : Collects modifierEntry? input fun _ => [] := by
  intro state
  unfold modifierEntry?
  refine .ask fun modifier? hmodifier => ?_
  cases modifier? with
  | none => exact .pure .refl
  | some modifier =>
      have hbrace : input.sentence.kindAt state.position ≠ .rBrace := by
        intro hkind
        simp [Sentence.modifierAt?, Sentence.qualifierAt, Sentence.wordAt?, hkind,
          Modifier.ofKeyword?] at hmodifier
      refine (advance_gathers
        (TokenKind.isPlain_of_ne (modifierAt?_ne_eof hmodifier) hbrace)).bind ?_
      rintro token after ⟨-, -, htoken⟩
      exact .pure htoken

theorem memberHead_collects : Collects memberHead input fun _ => [] := by
  intro state
  unfold memberHead
  refine .position ((many_passes_plain modifierEntry?_collects state).bind
    fun entries after₁ hentries => ?_)
  refine (refQualifier?_collects after₁).bind fun qualifier? after₂ hqualifier => .pure ?_
  exact hentries.trans hqualifier

theorem memberInfo_gathers {make : MemberInfo → Member} (hstart : head.start = origin.position)
    (hinfo : ∀ info, (make info).info = info)
    (h : ∀ info, input.sentence.Gathers (make info).entries origin state)
    (hmoves : origin.position < state.position ∨
      ∀ info, Entry.faultsOf (make info).entries = []) :
    Ends (memberInfo head >>= fun info => pure (make info)) input state fun member after =>
      input.sentence.TakesMember member origin after := by
  refine (memberInfo_ends hstart (h default).forward).bind ?_
  rintro _ _ ⟨rfl, rfl⟩
  refine .pure ⟨?_, h _, hmoves.imp_right fun hnone => hnone _⟩
  rw [Member.range, hinfo]

/-! ## Members -/

section Typed

variable (hstart : head.start = origin.position)
  (htype : input.sentence.Gathers [.node (.type type)] origin state)
  (hmoved : origin.position < state.position)
include hstart htype hmoved

theorem fieldDecl_gathers :
    Ends (fieldDecl head type) input state fun member after =>
      input.sentence.TakesMember member origin after := by
  unfold fieldDecl
  refine (declarators_collect state).bind fun declarators after₁ hdeclarators => ?_
  refine (expect_collects rfl after₁).bind fun semicolon? after₂ hsemicolon => ?_
  have hforward := (hdeclarators.trans hsemicolon).forward
  exact memberInfo_gathers hstart (fun _ => rfl)
    (fun _ => (htype.trans hdeclarators).behind hsemicolon) (.inl (by omega))

theorem methodDecl_gathers (hkind : input.sentence.kindAt state.position = .identifier) :
    Ends (methodDecl head type) input state fun member after =>
      input.sentence.TakesMember member origin after := by
  unfold methodDecl
  refine (advance_gathers (isPlain_of_kind hkind rfl)).bind ?_
  rintro name after₁ ⟨-, -, hname⟩
  refine (typeParameters?_collects after₁).bind fun typeParams? after₂ htypeParams => ?_
  refine (roundParameters_collects after₂).bind fun params after₃ hparams => ?_
  refine (memberBody_collects after₃).bind fun body after₄ hbody => ?_
  have hbehind := hname.trans (htypeParams.trans (hparams.trans hbody))
  have hforward := hbehind.forward
  exact memberInfo_gathers hstart (fun _ => rfl) (fun _ => htype.trans hbehind)
    (.inl (by omega))

theorem propertyDecl_gathers (hkind : input.sentence.kindAt state.position = .identifier) :
    Ends (propertyDecl head type) input state fun member after =>
      input.sentence.TakesMember member origin after := by
  unfold propertyDecl
  refine (advance_gathers (isPlain_of_kind hkind rfl)).bind ?_
  rintro name after₁ ⟨-, -, hname⟩
  refine (propertyBody_collects after₁).bind fun body after₂ hbody => ?_
  have hforward := (hname.trans hbody).forward
  exact memberInfo_gathers hstart (fun _ => rfl) (fun _ => htype.trans (hname.trans hbody))
    (.inl (by omega))

theorem indexerDecl_gathers (hkind : input.sentence.kindAt state.position = .thisKw) :
    Ends (indexerDecl head type) input state fun member after =>
      input.sentence.TakesMember member origin after := by
  unfold indexerDecl
  refine (advance_gathers (isPlain_of_kind hkind rfl)).bind ?_
  rintro this after₁ ⟨-, -, hthis⟩
  refine (parameterList_collects rfl rfl after₁).bind fun params after₂ hparams => ?_
  refine (propertyBody_collects after₂).bind fun body after₃ hbody => ?_
  have hbehind := hthis.trans (hparams.trans hbody)
  have hforward := hbehind.forward
  exact memberInfo_gathers hstart (fun _ => rfl) (fun _ => htype.trans hbehind)
    (.inl (by omega))

omit hstart htype hmoved in
theorem declaredOperator?_gathers :
    Ends declaredOperator? input state fun op? after =>
      input.sentence.Gathers
        (if op?.isNone then [.fault (.noOperator state.position)] else []) state after := by
  unfold declaredOperator?
  refine .position (.askIf (fun hshift => ?_) fun _ => .askIf (fun hop => ?_) fun _ => ?_)
  · have hop : input.sentence.infixAt? state.position = some (.binary .shr) := by
      simp [Sentence.infixAt?, hshift]
    have hmove : Ends (moveTo fun _ index => index + 2) input state fun _ after =>
        input.sentence.Gathers [] state after := gathers_operator hop
    exact hmove.bind fun _ after hop => .rangeFrom (.pure hop)
  · have hplain := TokenSet.isPlain_of_contains (by simp [TokenSet.overloadableOperators])
      (by simp [TokenSet.overloadableOperators]) hop
    refine (advance_gathers hplain).bind ?_
    rintro token after ⟨-, -, htoken⟩
    exact .pure htoken
  · exact .noteHere (.pure (Gathers.refl.faulty (.noOperator _) rfl trivial (Nat.le_refl _)))

theorem operatorDecl_gathers (hkind : input.sentence.kindAt state.position = .operatorKw) :
    Ends (operatorDecl head type) input state fun member after =>
      input.sentence.TakesMember member origin after := by
  unfold operatorDecl
  refine (advance_gathers (isPlain_of_kind hkind rfl)).bind ?_
  rintro _ after₁ ⟨rfl, hnext, hkeyword⟩
  refine declaredOperator?_gathers.bind fun op? after₂ hop => ?_
  refine (roundParameters_collects after₂).bind fun params after₃ hparams => ?_
  refine (memberBody_collects after₃).bind fun body after₄ hbody => ?_
  rw [hnext] at hop
  have hbehind := hkeyword.trans ((hop.trans hparams).trans hbody)
  have hforward := hbehind.forward
  exact memberInfo_gathers hstart (fun _ => rfl) (fun _ => htype.trans hbehind)
    (.inl (by omega))

theorem abandoned_gathers :
    Ends (abandoned head type) input state fun member after =>
      input.sentence.TakesMember member origin after :=
  .noteHere (memberInfo_gathers hstart (fun _ => rfl)
    (fun _ => htype.noted rfl (Nat.le_refl _)) (.inl hmoved))

end Typed

theorem faultsOf_missing (h : type.valueType.isMissing = true) :
    Entry.faultsOf [.node (.type type)] = [] := by
  have hmissing : ∀ range, Entry.faultsOf [.node (.type (.missing range))] = [] :=
    fun range => Node.faultsOf_single _
  cases type with
  | missing range => exact hmissing range
  | byRef range qualifier inner =>
      cases inner with
      | missing inner =>
          rw [Node.faultsOf_single]
          exact hmissing inner
      | _ => cases h
  | _ => cases h

theorem typedMember_gathers (hbuilt : head.BuiltOn origin state)
    (hhead : input.sentence.Gathers [] origin state) :
    Ends (typedMember head) input state fun member after =>
      input.sentence.TakesMember member origin after := by
  have hstart := hbuilt.start
  obtain ⟨middle, hmodifiers, hqualifier⟩ := hbuilt.parts
  have hforward := hmodifiers.forward
  unfold typedMember
  refine ((qualifiedType_builds hqualifier).and (qualifiedType_collects _ state)).bind ?_
  rintro type after ⟨⟨hmoves, -⟩, htype⟩
  have hdecl := hhead.trans htype
  refine .ite (fun hmissing => ?_) fun hpresent => ?_
  · have hnone := faultsOf_missing hmissing
    refine memberInfo_gathers hstart (fun _ => rfl) (fun _ => ?_) (.inr fun _ => ?_)
    · split
      · exact hdecl
      · exact hdecl.drop hnone
    · split
      · exact hnone
      · rfl
  · have hmoved := hmoves (by
      cases type <;> simp_all [TypeSyntax.valueType, TypeSyntax.isMissing])
    replace hmoved : origin.position < after.position := by omega
    refine .kind fun kind hkind => ?_
    split
    · exact indexerDecl_gathers hstart hdecl hmoved hkind
    · refine .ite (fun _ => abandoned_gathers hstart hdecl hmoved) fun _ => ?_
      exact operatorDecl_gathers hstart hdecl hmoved hkind
    · refine .ask fun next _ => ?_
      split
      · exact methodDecl_gathers hstart hdecl hmoved hkind
      · exact methodDecl_gathers hstart hdecl hmoved hkind
      · exact propertyDecl_gathers hstart hdecl hmoved hkind
      · exact propertyDecl_gathers hstart hdecl hmoved hkind
      · refine .ite (fun _ => methodDecl_gathers hstart hdecl hmoved hkind) fun _ => ?_
        exact fieldDecl_gathers hstart hdecl hmoved
    · exact abandoned_gathers hstart hdecl hmoved

structure MembersDone (input : Input) (before : ParseState) (members : List Member)
    (after : ParseState) : Prop where
  stop : input.sentence.kindAt after.position = .rBrace ∨
    input.sentence.kindAt after.position = .eof
  tile : TokenRange.Tile (members.map (·.range)) before.position after.position
  gathers : input.sentence.Gathers (members.map fun member => .node (.member member)) before after

def CollectsMembers (members : Parse (List Member)) (input : Input) (place : Nat) : Prop :=
  ∀ state, place < state.position → Ends members input state (MembersDone input state)

theorem memberBody_braces {members : Parse (List Member)} {place : Nat}
    (hmembers : CollectsMembers members input place) (hplace : place ≤ state.position) :
    Ends (braced members) input state fun (opening?, list, closing?) after =>
      input.sentence.Gathers (.body ⟨opening?, list.map (·.range), closing?⟩ ::
        list.map fun member => .node (.member member)) state after := by
  let entries (list : List Member) : List Entry := list.map fun member => .node (.member member)
  have hnil : entries [] = [] := rfl
  refine (braced_gathers (MembersDone input { state with position := state.position + 1 }) hnil
    fun _ => ?_).imp ?_
  · exact (hmembers _ (Nat.lt_succ_of_le hplace)).imp fun _ _ h => ⟨h.gathers, h⟩
  · rintro ⟨opening?, list, closing?⟩ after ⟨hlist, hbody⟩
    refine hlist.withBody ?_
    rintro opening ⟨⟩
    obtain ⟨rfl, hopening, middle, hdone, hclosing⟩ := hbody opening rfl
    exact Body.ownsTokens hopening hdone.tile hdone.gathers.within hdone.stop hclosing _ rfl

section Keyword

variable (hstart : head.start = origin.position)
  (hhead : input.sentence.Gathers [] origin state)
include hstart hhead

theorem conversionDecl_gathers
    (hkind : (input.sentence.kindAt state.position).isPlain = true)
    (hoperator : input.sentence.kindAt (state.position + 1) = .operatorKw) :
    Ends (conversionDecl head) input state fun member after =>
      input.sentence.TakesMember member origin after := by
  unfold conversionDecl
  refine (advance_gathers hkind).bind ?_
  rintro op after₁ ⟨-, hnext, hop⟩
  refine (advance_gathers (isPlain_of_kind (hnext ▸ hoperator) rfl)).bind ?_
  rintro keyword after₂ ⟨-, -, hkeyword⟩
  refine (type_collects after₂).bind fun type after₃ htype => ?_
  refine (roundParameters_collects after₃).bind fun params after₄ hparams => ?_
  refine (memberBody_collects after₄).bind fun body after₅ hbody => ?_
  have hbehind := hkeyword.trans (htype.trans (hparams.trans hbody))
  have hforward := hhead.forward
  have hforward' := hbehind.forward
  exact memberInfo_gathers hstart (fun _ => rfl) (fun _ => hhead.trans (hop.trans hbehind))
    (.inl (by omega))

theorem constructorDecl_gathers (hkind : input.sentence.kindAt state.position = .identifier) :
    Ends (constructorDecl head) input state fun member after =>
      input.sentence.TakesMember member origin after := by
  unfold constructorDecl
  refine (advance_gathers (isPlain_of_kind hkind rfl)).bind ?_
  rintro name after₁ ⟨-, hnext, hname⟩
  refine (roundParameters_collects after₁).bind fun params after₂ hparams => ?_
  refine (memberBody_collects after₂).bind fun body after₃ hbody => ?_
  have hforward := hhead.forward
  have hforward' := (hparams.trans hbody).forward
  exact memberInfo_gathers hstart (fun _ => rfl)
    (fun _ => hhead.trans (hname.trans (hparams.trans hbody))) (.inl (by omega))

theorem delegateDecl_gathers (hkind : input.sentence.kindAt state.position = .delegateKw) :
    Ends (delegateDecl head) input state fun member after =>
      input.sentence.TakesMember member origin after := by
  unfold delegateDecl
  refine (advance_gathers (isPlain_of_kind hkind rfl)).bind ?_
  rintro keyword after₁ ⟨-, hnext, hkeyword⟩
  refine (refQualifier?_collects after₁).bind fun qualifier? after₂ hqualifier => ?_
  refine (qualifiedType_collects _ after₂).bind fun type after₃ htype => ?_
  refine (expect_collects rfl after₃).bind fun name? after₄ hname => ?_
  refine (typeParameters?_collects after₄).bind fun typeParams? after₅ htypeParams => ?_
  refine (roundParameters_collects after₅).bind fun params after₆ hparams => ?_
  refine (expect_collects rfl after₆).bind fun semicolon? after₇ hsemicolon => ?_
  have hbehind := hqualifier.trans
    ((htype.trans (hname.trans (htypeParams.trans hparams))).behind hsemicolon)
  have hforward := hhead.forward
  have hforward' := hbehind.forward
  exact memberInfo_gathers hstart (fun _ => rfl) (fun _ => hhead.trans (hkeyword.trans hbehind))
    (.inl (by omega))

theorem typeDecl_gathers {members : Parse (List Member)}
    (hmembers : CollectsMembers members input origin.position)
    (hkind : (input.sentence.kindAt state.position).isPlain = true) (kind : TypeDeclKind) :
    Ends (typeDecl members head kind) input state fun member after =>
      input.sentence.TakesMember member origin after := by
  unfold typeDecl
  refine (advance_gathers hkind).bind ?_
  rintro keyword after₁ ⟨-, hnext, hkeyword⟩
  refine (expect_collects rfl after₁).bind fun name? after₂ hname => ?_
  refine (typeParameters?_collects after₂).bind fun typeParams? after₃ htypeParams => ?_
  refine (baseTypes_collect after₃).bind fun bases after₄ hbases => ?_
  have hfront := hname.trans (htypeParams.trans hbases)
  have hforward := hhead.forward
  have hforward₁ := hfront.forward
  refine (memberBody_braces hmembers (by omega)).bind ?_
  rintro ⟨opening?, list, closing?⟩ after₅ hbody
  refine (eat_collects rfl after₅).bind fun semicolon? after₆ hsemicolon => ?_
  have hforward₂ := (hbody.trans hsemicolon).forward
  refine memberInfo_gathers hstart (fun _ => rfl) (fun _ => ?_) (.inl (by omega))
  have hdecl := hhead.trans (hkeyword.trans ((hfront.trans hbody).behind hsemicolon))
  simpa [Member.entries, Function.comp_def] using hdecl

theorem namespaceDecl_gathers {members : Parse (List Member)}
    (hmembers : CollectsMembers members input origin.position)
    (hkind : input.sentence.kindAt state.position = .namespaceKw) :
    Ends (namespaceDecl members head) input state fun member after =>
      input.sentence.TakesMember member origin after := by
  unfold namespaceDecl
  refine (advance_gathers (isPlain_of_kind hkind rfl)).bind ?_
  rintro keyword after₁ ⟨-, hnext, hkeyword⟩
  refine (type_collects after₁).bind fun name after₂ hname => ?_
  have hforward := hhead.forward
  have hforward₁ := hname.forward
  refine (memberBody_braces hmembers (by omega)).bind ?_
  rintro ⟨opening?, list, closing?⟩ after₃ hbody
  have hforward₂ := hbody.forward
  exact memberInfo_gathers hstart (fun _ => rfl)
    (fun _ => hhead.trans (hkeyword.trans (hname.trans hbody))) (.inl (by omega))

theorem usingDirective_gathers (hkind : input.sentence.kindAt state.position = .usingKw) :
    Ends (usingDirective head) input state fun member after =>
      input.sentence.TakesMember member origin after := by
  unfold usingDirective
  refine (advance_gathers (isPlain_of_kind hkind rfl)).bind ?_
  rintro keyword after₁ ⟨-, hnext, hkeyword⟩
  refine (clauseType_collects after₁).bind fun name after₂ hname => ?_
  refine (expect_collects rfl after₂).bind fun semicolon? after₃ hsemicolon => ?_
  have hbehind := hname.behind hsemicolon
  have hforward := hhead.forward
  have hforward' := hbehind.forward
  exact memberInfo_gathers hstart (fun _ => rfl) (fun _ => hhead.trans (hkeyword.trans hbehind))
    (.inl (by omega))

end Keyword

section Members

variable {nested : ParseContext → Parse (List Member)}

def CollectsBodies (nested : ParseContext → Parse (List Member)) (input : Input) (place : Nat) :
    Prop :=
  ∀ context, context.isBraced = true → CollectsMembers (nested context) input place

theorem declaredMember_gathers (hnested : CollectsBodies nested input origin.position)
    (hbuilt : head.BuiltOn origin state) (hhead : input.sentence.Gathers [] origin state)
    (context : ParseContext) :
    Ends (declaredMember nested context head) input state fun member after =>
      input.sentence.TakesMember member origin after := by
  have hmembers := hnested _ context.isBraced_enterType
  have hstart := hbuilt.start
  unfold declaredMember
  refine .ite (fun _ => typedMember_gathers hbuilt hhead) fun _ => .kind fun kind hkind => ?_
  have hconversion : kind.isPlain = true → Ends (do
      if (← peek 1) == .operatorKw then conversionDecl head else typedMember head) input state
      fun member after => input.sentence.TakesMember member origin after := fun hplain =>
    .ask fun next hnext => .ite
      (fun hoperator => conversionDecl_gathers hstart hhead (isPlain_of_kind hkind hplain)
        (hnext.trans (by simpa using hoperator)))
      fun _ => typedMember_gathers hbuilt hhead
  split
  · exact typeDecl_gathers hstart hhead hmembers (isPlain_of_kind hkind rfl) _
  · exact typeDecl_gathers hstart hhead hmembers (isPlain_of_kind hkind rfl) _
  · exact typeDecl_gathers hstart hhead hmembers (isPlain_of_kind hkind rfl) _
  · exact delegateDecl_gathers hstart hhead hkind
  · exact hconversion rfl
  · exact hconversion rfl
  · refine .ask fun next _ => .ite (fun _ => ?_) fun _ => typedMember_gathers hbuilt hhead
    exact constructorDecl_gathers hstart hhead hkind
  · exact typedMember_gathers hbuilt hhead

theorem member_gathers (hnested : CollectsBodies nested input state.position)
    (context : ParseContext) :
    Ends (member nested context) input state fun member after =>
      input.sentence.TakesMember member state after := by
  unfold member
  refine .kind fun kind hkind => ?_
  split
  · exact .position (usingDirective_gathers rfl .refl hkind)
  · exact .position (namespaceDecl_gathers rfl .refl
      (hnested _ context.isBraced_enterNamespace) hkind)
  · refine (memberHead_builds.and (memberHead_collects state)).bind ?_
    rintro head after ⟨hbuilt, hhead⟩
    exact declaredMember_gathers hnested hbuilt hhead context

/-- What a list takes as one member.  It closes its own braces unless it starts with a `}`,
and that it does outside of all braces alone. -/
structure TakesSome (input : Input) (before : ParseState) (member : Member)
    (after : ParseState) : Prop where
  moves : before.position < after.position
  range : member.range = ⟨before.position, after.position⟩
  accounts : input.sentence.Accounts [.node (.member member)] before after
  gathers : input.sentence.kindAt before.position ≠ .rBrace →
    input.sentence.Gathers [.node (.member member)] before after

theorem takesSome_of_member {member : Member} {after : ParseState}
    (h : input.sentence.TakesMember member state after)
    (hmoved : state.position < after.position) : TakesSome input state member after :=
  have hmember := h.gathers.member h.range
  ⟨hmoved, h.range, hmember.toAccounts, fun _ => hmember⟩

theorem skippedMember_takes (hkind : input.sentence.kindAt state.position ≠ .eof)
    (context : ParseContext) :
    Ends (skippedMember context) input state (TakesSome input state) := by
  have hsize := Sentence.lt_size_of_kindAt hkind
  unfold skippedMember
  refine .position (.noteHere (.advance hkind ?_))
  generalize hfinding : (if context.inTypeBody then Finding.strayInType else .strayOutside)
    state.position = finding
  have hquiet : finding.tellsFault = false := by
    rw [← hfinding]
    split <;> rfl
  have hplace : finding.place ≤ state.position := by
    rw [← hfinding]
    split <;> exact Nat.le_refl _
  have hnoted : input.sentence.Gathers [] state
      { state with findings := finding :: state.findings } := Gathers.refl.noted hquiet hplace
  let stop := input.sentence.memberBoundary context.memberStart.contains (state.position + 1)
  have hbounds : state.position + 1 ≤ stop ∧
      stop ≤ state.position + 1 + input.sentence.left (state.position + 1) :=
    input.sentence.memberBoundaryWithin_bounds _ _ 0 (state.position + 1)
  have hmove : Ends (moveTo fun sentence => sentence.memberBoundary context.memberStart.contains)
      input ⟨state.position + 1, finding :: state.findings, state.exprs⟩ fun _ after =>
        after = ⟨stop, finding :: state.findings, state.exprs⟩ := rfl
  refine hmove.bind ?_
  rintro _ _ rfl
  refine rangeFrom_step (by simp only; omega) (.pure ?_)
  let skipped : Member := .skipped ⟨.empty, ⟨state.position, stop⟩⟩
  have hwithin : stop ≤ max state.position input.sentence.size := by
    have hle := hbounds.2
    unfold Sentence.left at hle
    omega
  have hle : state.position ≤ stop := by omega
  refine ⟨by simp only; omega, rfl, ?_, fun hbrace => ?_⟩
  · have hskipped : input.sentence.Accounts (Node.member skipped).entries state
        ⟨stop, finding :: state.findings, state.exprs⟩ := hnoted.toAccounts.skip hle hwithin
    exact hskipped.node _ nofun
  · have hcloses : input.sentence.ClosesOwn state.position stop :=
      (Sentence.ClosesOwn.single hbrace).trans
        (Sentence.memberBoundaryWithin_closesWithin _ _ 0 _) (Nat.le_succ _) hbounds.1
    have hskipped : input.sentence.Gathers skipped.entries state
        ⟨stop, finding :: state.findings, state.exprs⟩ :=
      hnoted.skip hle hwithin fun _ => hcloses
    exact hskipped.member rfl

theorem someMember_takes (hnested : CollectsBodies nested input state.position)
    (hkind : input.sentence.kindAt state.position ≠ .eof) (context : ParseContext) :
    Ends (someMember nested context) input state (TakesSome input state) := by
  unfold someMember
  refine .position (.ask fun starts hstarts => ?_)
  cases starts with
  | true =>
      have hplain := context.isPlain_of_memberStart hstarts
      rw [if_pos rfl]
      refine (member_gathers hnested context).bind fun member after hmember => ?_
      refine .position (.ite (fun hsame => ?_) fun hmoved => ?_)
      · -- Nothing was taken, so no fault is lost with the member.
        have hat : after.position = state.position := by simpa using hsame
        have hnone := hmember.gathers.drop (hmember.moves.resolve_left (by omega))
        refine (advance_gathers (by rw [hat]; exact hplain)).bind ?_
        rintro _ last ⟨-, hnext, htoken⟩
        have hskipped := hnone.trans htoken
        refine rangeFrom_step (by omega) (.pure (takesSome_of_member ?_ (by omega)))
        exact ⟨rfl, hskipped, .inr rfl⟩
      · have hne : after.position ≠ state.position := by simpa using hmoved
        have hforward := hmember.gathers.forward
        exact .pure (takesSome_of_member hmember (by omega))
  | false =>
      rw [if_neg (by decide)]
      refine (skippedMember_takes hkind context).bind fun member after hmember => ?_
      refine .position (.ite (fun hsame => ?_) fun _ => .pure hmember)
      have hmoved := hmember.moves
      have hat : after.position = state.position := by simpa using hsame
      omega

theorem members_take (hnested : CollectsBodies nested input state.position)
    (context : ParseContext) :
    Ends (many (whenever (hasMember context) (someMember nested context))) input state
      fun members after =>
        (hasMember context input after).1 = false ∧
          TokenRange.Tile (members.map (·.range)) state.position after.position ∧
          input.sentence.Accounts (members.map fun member => .node (.member member)) state after ∧
          (context.isBraced = true →
            input.sentence.Gathers (members.map fun member => .node (.member member))
              state after) := by
  refine many_done (fun members after =>
    TokenRange.Tile (members.map (·.range)) state.position after.position ∧
      input.sentence.Accounts (members.map fun member => .node (.member member)) state after ∧
      (context.isBraced = true →
        input.sentence.Gathers (members.map fun member => .node (.member member)) state after))
    ?_ ?_ ⟨.nil _, .refl, fun _ => .refl⟩
  · rintro members before ⟨htile, haccounts, hgathers⟩
    refine whenever_ends (fun hhas => ?_) fun hhas => ⟨hhas, htile, haccounts, hgathers⟩
    obtain ⟨hkind, hopen⟩ : input.sentence.kindAt before.position ≠ .eof ∧
        (input.sentence.kindAt before.position ≠ .rBrace ∨ context.isBraced = false) := by
      simpa using hhas
    have hforward := haccounts.forward
    have hbehind : CollectsBodies nested input before.position :=
      fun inner hinner later hlater => hnested inner hinner later (by omega)
    refine (someMember_takes hbehind hkind context).imp fun member after hmember => ?_
    refine ⟨⟨?_, ?_, fun hbraced => ?_⟩, hmember.moves⟩
    · rw [List.map_append, List.map_singleton, hmember.range]
      exact htile.append_singleton hmember.moves
    · rw [List.map_append, List.map_singleton]
      exact haccounts.trans hmember.accounts
    · rw [List.map_append, List.map_singleton]
      -- A `}` ends a list inside of braces, so the member does not start with one.
      have hbrace := hopen.resolve_right (by simp [hbraced])
      exact (hgathers hbraced).trans (hmember.gathers hbrace)
  · rintro members before ⟨htile, haccounts, hgathers⟩ hsize
    refine ⟨?_, htile, haccounts, hgathers⟩
    have hkind := Sentence.kindAt_eq_eof hsize
    change (input.sentence.kindAt before.position != .eof && _) = false
    simp [hkind]

end Members

/-- Where the symbols left bound the nesting, the bound is never what ends a body. -/
theorem membersWithin_done (n : Nat) (context : ParseContext) (hbraced : context.isBraced = true)
    (state : ParseState) (hn : input.sentence.left state.position ≤ n) :
    Ends (membersWithin n context) input state (MembersDone input state) := by
  induction n generalizing context state with
  | zero =>
      refine .pure ⟨.inr (Sentence.kindAt_eq_eof ?_), .nil _, .refl⟩
      unfold Sentence.left at hn
      omega
  | succ n ih =>
      have hnested : CollectsBodies (membersWithin n) input state.position := by
        intro inner hinner later hlater
        refine ih inner hinner later ?_
        unfold Sentence.left at hn ⊢
        omega
      refine (members_take hnested context).imp ?_
      rintro members after ⟨hhas, htile, -, hgathers⟩
      refine ⟨?_, htile, hgathers hbraced⟩
      have hstop : input.sentence.kindAt after.position ≠ .eof →
          input.sentence.kindAt after.position = .rBrace := by
        simpa [hasMember, ask, hbraced] using hhas
      by_cases heof : input.sentence.kindAt after.position = .eof
      · exact .inr heof
      · exact .inl (hstop heof)

theorem compilationUnit_accounts :
    Ends compilationUnit input state fun unit after =>
      input.sentence.Accounts (unit.members.map fun member => .node (.member member))
        state after := by
  have hmembers : Ends (members .none) input state fun members after =>
      input.sentence.Accounts (members.map fun member => .node (.member member))
        state after := by
    refine .left ?_
    cases hleft : input.sentence.left state.position with
    | zero => exact .pure .refl
    | succ n =>
        have hnested : CollectsBodies (membersWithin n) input state.position := by
          intro inner hinner later hlater
          refine membersWithin_done n inner hinner later ?_
          unfold Sentence.left at hleft ⊢
          omega
        exact (members_take hnested .none).imp fun _ _ h => h.2.2.1
  exact hmembers.bind fun members after h => .position (.pure h)

end Parse
end TolerantSyntax
