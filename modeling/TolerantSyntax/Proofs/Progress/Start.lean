import TolerantSyntax.Proofs.MemberHead
import TolerantSyntax.Proofs.Progress.Round
import TolerantSyntax.Proofs.RoundTrip.StmtParts

/-!
# Where a member may start

Where a member may start it takes a symbol, unless that is an `implicit` or `explicit` without an
`operator` behind it: such a keyword is read as a type, which it does not start.  A modifier or a
qualifier is taken with the head.  What is neither is a keyword that is taken by the member it
announces, or it starts a type.
-/

namespace TolerantSyntax

def Sentence.bareConversionAt (sentence : Sentence) (index : Nat) : Prop :=
  sentence.kindAt index ∈ [.implicitKw, .explicitKw] ∧ sentence.kindAt (index + 1) ≠ .operatorKw

def Sentence.headAt (sentence : Sentence) (index : Nat) : Bool :=
  (sentence.modifierAt? index).isSome || sentence.qualifierAt index

namespace Sentence

variable {sentence : Sentence} {index : Nat}

theorem headAt_eq_false : sentence.headAt index = false ↔
    sentence.modifierAt? index = none ∧ sentence.qualifierAt index = false := by
  simp [headAt]

theorem kindAt_of_headAt (h : sentence.headAt index = false) :
    Modifier.ofKeyword? (sentence.kindAt index) = none ∧ sentence.kindAt index ≠ .refKw := by
  obtain ⟨hmodifier, hqualifier⟩ := headAt_eq_false.mp h
  constructor
  · unfold modifierAt? at hmodifier
    rw [hqualifier] at hmodifier
    cases hkeyword : Modifier.ofKeyword? (sentence.kindAt index) with
    | none => rfl
    | some modifier => simp [hkeyword] at hmodifier
  · intro href
    simp [qualifierAt, href] at hqualifier

theorem not_headAt_of_bareConversionAt (h : sentence.bareConversionAt index) :
    sentence.headAt index = false := by
  obtain ⟨hkind, -⟩ := h
  rcases List.mem_pair.mp hkind with hkind | hkind <;>
    simp [headAt, modifierAt?, qualifierAt, wordAt?, Modifier.ofKeyword?, hkind]

end Sentence

theorem TokenKind.memberStart_cases {context : ParseContext} {kind : TokenKind}
    (h : context.memberStart.contains kind = true) (hmodifier : Modifier.ofKeyword? kind = none)
    (href : kind ≠ .refKw) (husing : kind ≠ .usingKw) (hnamespace : kind ≠ .namespaceKw) :
    kind ∈ [.classKw, .structKw, .interfaceKw, .delegateKw] ∨ kind ∈ [.implicitKw, .explicitKw] ∨
      TokenSet.typeStart.contains kind = true := by
  have hall : ∀ set ∈ [TokenSet.memberStart, .namespaceMemberStart], ∀ kind ∈ TokenKind.all,
      set.contains kind = true → Modifier.ofKeyword? kind = none →
      kind ∉ [.refKw, .usingKw, .namespaceKw] →
        kind ∈ [.classKw, .structKw, .interfaceKw, .delegateKw] ∨
          kind ∈ [.implicitKw, .explicitKw] ∨ TokenSet.typeStart.contains kind = true := by
    decide +kernel
  have hset : context.memberStart ∈ [TokenSet.memberStart, .namespaceMemberStart] := by
    unfold ParseContext.memberStart
    split <;> simp
  exact hall _ hset kind kind.mem_all h hmodifier (by simp [href, husing, hnamespace])

namespace Parse

variable {input : Input} {state : ParseState}

theorem modifierEntries_none (h : input.sentence.modifierAt? state.position = none) :
    Ends (many modifierEntry?) input state fun entries after => entries = [] ∧ after = state := by
  refine Round.modifierEntry?.many_declines ?_
  unfold modifierEntry?
  refine .ask fun modifier? hmodifier => ?_
  obtain rfl := hmodifier.symm.trans h
  exact .pure ⟨rfl, rfl⟩

theorem modifierEntries_move {modifier : Modifier}
    (h : input.sentence.modifierAt? state.position = some modifier) :
    Ends (many modifierEntry?) input state fun _ after => state.position < after.position := by
  refine Round.modifierEntry?.many_moves ?_
  unfold modifierEntry?
  refine .ask fun modifier? hmodifier => ?_
  obtain rfl := hmodifier.symm.trans h
  exact .advance (modifierAt?_ne_eof h) (.pure rfl)

theorem refQualifier?_moves (h : input.sentence.qualifierAt state.position = true) :
    Ends refQualifier? input state fun _ after => state.position < after.position := by
  refine (refQualifier?_gathers.and refQualifier?_takes).imp ?_
  rintro qualifier? after ⟨⟨-, hmoved | ⟨rfl, -⟩⟩, htakes⟩
  · exact hmoved
  · exact absurd (h.symm.trans htakes.2) (by decide)

theorem memberHead_moves (h : input.sentence.headAt state.position = true) :
    Ends memberHead input state fun _ after => state.position < after.position := by
  unfold memberHead
  refine .position ?_
  cases hmodifier : input.sentence.modifierAt? state.position with
  | some modifier =>
      exact moves_behind (modifierEntries_move hmodifier) fun _ =>
        Scripted.refQualifier?.bind fun _ => .pure _
  | none =>
      have hqualifier : input.sentence.qualifierAt state.position = true := by
        simpa [Sentence.headAt, hmodifier] using h
      refine (modifierEntries_none hmodifier).bind ?_
      rintro _ _ ⟨rfl, rfl⟩
      exact moves_behind (refQualifier?_moves hqualifier) fun _ => .pure _

theorem memberHead_none (h : input.sentence.headAt state.position = false) :
    Ends memberHead input state fun head after => head.qualifier? = none ∧ after = state := by
  obtain ⟨hmodifier, hqualifier⟩ := Sentence.headAt_eq_false.mp h
  unfold memberHead
  refine .position ((modifierEntries_none hmodifier).bind ?_)
  rintro _ _ ⟨rfl, rfl⟩
  exact (refQualifier?_declines hqualifier).bind (.pure ⟨rfl, rfl⟩)

theorem type_stays (hstart : TokenSet.typeStart.contains
      (input.sentence.kindAt state.position) = false) :
    Ends type input state fun type after =>
      type.valueType.isMissing = true ∧ after.position = state.position := by
  have hmissing : Ends missingType input state fun type after =>
      type.valueType.isMissing = true ∧ after.position = state.position := ⟨rfl, rfl⟩
  unfold type
  refine .left ?_
  cases input.sentence.left state.position with
  | zero => exact hmissing
  | succ n =>
      unfold typeWithin typeStep
      refine .position (.kind fun kind hkind => ?_)
      rw [hkind, TokenSet.contains_typeStart] at hstart
      split
      · exact absurd hstart (by decide)
      · exact absurd hstart (by decide)
      · refine .ite (fun hpredefined => ?_) fun _ => hmissing
        rw [hpredefined, Bool.true_or] at hstart
        exact absurd hstart (by decide)

theorem members_forward (context : ParseContext) :
    PairedFrom 0 (members context) (members context) input :=
  fun _ _ => (Scripted.members.onward context).paired

variable {head : MemberHead}

section Keyword

variable (hkind : input.sentence.kindAt state.position ≠ .eof)
include hkind

theorem delegateDecl_moves :
    Ends (delegateDecl head) input state fun _ after => state.position < after.position :=
  moves_behind (advance_moves hkind) fun _ => Scripted.refQualifier?.bind fun _ =>
    (Scripted.qualifiedType _).bind fun _ => (Scripted.expect _).bind fun _ =>
    Scripted.typeParameters?.bind fun _ => (Scripted.parameterList _ _).bind fun _ =>
    (Scripted.expect _).bind fun _ => (Scripted.memberInfo _).bind fun _ => .pure _

theorem conversionDecl_moves :
    Ends (conversionDecl head) input state fun _ after => state.position < after.position :=
  moves_behind (advance_moves hkind) fun _ => Scripted.advance.bind fun _ =>
    Scripted.type.bind fun _ => (Scripted.parameterList _ _).bind fun _ =>
    Scripted.memberBody.bind fun _ => (Scripted.memberInfo _).bind fun _ => .pure _

theorem constructorDecl_moves :
    Ends (constructorDecl head) input state fun _ after => state.position < after.position :=
  moves_behind (advance_moves hkind) fun _ => (Scripted.parameterList _ _).bind fun _ =>
    Scripted.memberBody.bind fun _ => (Scripted.memberInfo _).bind fun _ => .pure _

theorem usingDirective_moves :
    Ends (usingDirective head) input state fun _ after => state.position < after.position :=
  moves_behind (advance_moves hkind) fun _ => Scripted.clauseType.bind fun _ =>
    (Scripted.expect _).bind fun _ => (Scripted.memberInfo _).bind fun _ => .pure _

end Keyword

section Declared

variable (hnone : head.qualifier? = none)
include hnone

theorem typedMember_moves (hstart : TokenSet.typeStart.contains
      (input.sentence.kindAt state.position) = true) :
    Ends (typedMember head) input state fun _ after => state.position < after.position := by
  unfold typedMember
  rw [hnone]
  exact moves_behind (type_moves hstart) fun type => .behindType head type

theorem typedMember_stays (hstart : TokenSet.typeStart.contains
      (input.sentence.kindAt state.position) = false) :
    Ends (typedMember head) input state fun _ after => after.position = state.position := by
  unfold typedMember
  rw [hnone]
  refine (type_stays hstart).bind ?_
  rintro type after ⟨hmissing, hsame⟩
  exact .ite (fun _ => hsame) fun hpresent => absurd hmissing hpresent

theorem declaredMember_stays (context : ParseContext)
    (hbare : input.sentence.bareConversionAt state.position) :
    Ends (declaredMember members context head) input state fun _ after =>
      after.position = state.position := by
  obtain ⟨hconversion, hoperator⟩ := hbare
  unfold declaredMember
  refine .ite (fun hqualifier => by simp [hnone] at hqualifier) fun _ => .kind fun kind hkind => ?_
  rw [hkind] at hconversion
  have hstart : TokenSet.typeStart.contains (input.sentence.kindAt state.position) = false := by
    rw [hkind, TokenSet.contains_typeStart]
    rcases List.mem_pair.mp hconversion with rfl | rfl <;> decide
  have hplain : Ends (do
      if (← peek 1) == .operatorKw then conversionDecl head else typedMember head) input state
      fun _ after => after.position = state.position :=
    .ask fun next hnext => .ite
      (fun hyes => absurd (hnext.trans (by simpa using hyes)) hoperator)
      fun _ => typedMember_stays hnone hstart
  rcases List.mem_pair.mp hconversion with rfl | rfl <;> exact hplain

theorem declaredMember_moves (context : ParseContext)
    (hstart : input.sentence.kindAt state.position ∈
        [.classKw, .structKw, .interfaceKw, .delegateKw] ∨
      input.sentence.kindAt state.position ∈ [.implicitKw, .explicitKw] ∨
      TokenSet.typeStart.contains (input.sentence.kindAt state.position) = true)
    (hbare : ¬input.sentence.bareConversionAt state.position) :
    Ends (declaredMember members context head) input state fun _ after =>
      state.position < after.position := by
  unfold declaredMember
  refine .ite (fun hqualifier => by simp [hnone] at hqualifier) fun _ => .kind fun kind hkind => ?_
  rw [hkind] at hstart
  have htypeDecl : kind ≠ .eof → ∀ declared, Ends (typeDecl (members context.enterType) head
      declared) input state fun _ after => state.position < after.position :=
    fun heof declared =>
      (typeDecl_stepped (members_forward _) head declared (hkind ▸ heof) (Nat.zero_le _)).moved
  have hconversion : kind ∈ [.implicitKw, .explicitKw] → kind ≠ .eof → Ends (do
      if (← peek 1) == .operatorKw then conversionDecl head else typedMember head) input state
      fun _ after => state.position < after.position := by
    intro hkeyword heof
    refine .ask fun next hnext => .ite (fun _ => conversionDecl_moves (hkind ▸ heof)) fun hno => ?_
    exact absurd ⟨hkind ▸ hkeyword, hnext.trans_ne (by simpa using hno)⟩ hbare
  split
  · exact htypeDecl (by decide) _
  · exact htypeDecl (by decide) _
  · exact htypeDecl (by decide) _
  · exact delegateDecl_moves (by simp [hkind])
  · exact hconversion (by simp) (by decide)
  · exact hconversion (by simp) (by decide)
  · refine .ask fun next _ => .ite (fun _ => constructorDecl_moves (by simp [hkind])) fun _ => ?_
    exact typedMember_moves hnone (by rw [hkind, TokenSet.contains_typeStart]; decide)
  · -- None of the keywords is left, so a type starts here.
    refine typedMember_moves hnone (hkind ▸ ?_)
    rcases hstart with hkeyword | hkeyword | htype
    · grind
    · grind
    · exact htype

end Declared

theorem member_moves (context : ParseContext)
    (hstart : context.memberStart.contains (input.sentence.kindAt state.position) = true)
    (hbare : ¬input.sentence.bareConversionAt state.position) :
    Ends (member members context) input state fun _ after => state.position < after.position := by
  unfold member
  refine .kind fun kind hkind => ?_
  split
  · exact .position (usingDirective_moves (by simp [hkind]))
  · exact .position
      (namespaceDecl_stepped (members_forward _) _ (by simp [hkind]) (Nat.zero_le _)).moved
  · rename_i husing hnamespace
    cases hhead : input.sentence.headAt state.position with
    | true =>
        refine (memberHead_moves hhead).bind fun head after hmoved => ?_
        exact Nat.lt_of_lt_of_le hmoved
          ((Scripted.declaredMember head Scripted.members).onward context after)
    | false =>
        -- Behind a head that takes nothing the start of the member is still there.
        refine (memberHead_none hhead).bind ?_
        rintro head _ ⟨hnone, rfl⟩
        obtain ⟨hmodifier, href⟩ := Sentence.kindAt_of_headAt hhead
        exact declaredMember_moves hnone context
          (TokenKind.memberStart_cases hstart hmodifier href (hkind ▸ husing)
            (hkind ▸ hnamespace)) hbare

theorem member_stays (context : ParseContext)
    (hbare : input.sentence.bareConversionAt state.position) :
    Ends (member members context) input state fun _ after => after.position = state.position := by
  have hconversion := hbare.1
  unfold member
  refine .kind fun kind hkind => ?_
  rw [hkind] at hconversion
  split
  · exact absurd hconversion (by decide)
  · exact absurd hconversion (by decide)
  · refine (memberHead_none (Sentence.not_headAt_of_bareConversionAt hbare)).bind ?_
    rintro head _ ⟨hnone, rfl⟩
    exact declaredMember_stays hnone context hbare

/-- Only a conversion without its `operator` takes nothing where a member may start. -/
theorem member_moves_iff (context : ParseContext)
    (hstart : context.memberStart.contains (input.sentence.kindAt state.position) = true) :
    Ends (member members context) input state fun _ after =>
      state.position < after.position ↔ ¬input.sentence.bareConversionAt state.position := by
  by_cases hbare : input.sentence.bareConversionAt state.position
  · refine (member_stays context hbare).imp fun _ after hsame => ?_
    simp [hsame, hbare]
  · exact (member_moves context hstart hbare).imp fun _ _ hmoved => by simp [hmoved, hbare]

end Parse
end TolerantSyntax
