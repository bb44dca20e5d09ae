import TolerantSyntax.Proofs.Qualifier.Heads
import TolerantSyntax.Proofs.Qualifier.Steady

/-!
# Qualifiers stand in front of types

A qualifier that is read from a clear place has all of its symbols.  Types are plain by
themselves: the `ref` that is skipped in an element is no part of its type.
-/

namespace TolerantSyntax

/-- The qualifier has been read whole, from the place or from behind it. -/
structure RefQualifier.Whole (sentence : Sentence) (place : Nat) (qualifier : RefQualifier) :
    Prop where
  isRef : sentence.kindAt qualifier.ref = .refKw
  readonly : ∀ front, qualifier.readonly? = some front →
    qualifier.ref = front + 1 ∧ sentence.kindAt front = .readonlyKw
  alone : qualifier.readonly? = none →
    ∀ front, qualifier.ref = front + 1 → sentence.kindAt front ≠ .readonlyKw
  le : place ≤ qualifier.firstToken

/-- The modifiers stand in front of the qualifier, which is whole. -/
def RefQualifier.Behind (sentence : Sentence) (modifiers : ModifierSet)
    (qualifier : RefQualifier) : Prop :=
  ∃ place, qualifier.Whole sentence place ∧ ∀ entry ∈ modifiers.entries, entry.token < place

theorem RefQualifier.Behind.standsAt {sentence : Sentence} {modifiers : ModifierSet}
    {qualifier : RefQualifier} (h : qualifier.Behind sentence modifiers) {range : TokenRange}
    (hstart : range.start = qualifier.firstToken) :
    qualifier.StandsAt (fun index kind => sentence.kindAt index = kind) range modifiers := by
  obtain ⟨place, hwhole, hmodifiers⟩ := h
  obtain ⟨readonly?, ref⟩ := qualifier
  cases readonly? with
  | none =>
      have halone := hwhole.alone rfl
      refine ⟨hwhole.isRef, .inl hstart.symm, ⟨nofun, ?_⟩, ?_⟩
      · rintro ⟨front, hat, hreadonly⟩
        exact absurd hreadonly (halone front hat)
      · exact fun front hat hreadonly => absurd hreadonly (halone front hat)
  | some first =>
      obtain ⟨hat, hreadonly⟩ := hwhole.readonly first rfl
      have hle : place ≤ first := hwhole.le
      replace hat : ref = first + 1 := hat
      refine ⟨hwhole.isRef, .inr ?_, ⟨fun _ => ⟨first, hat, hreadonly⟩, fun _ => rfl⟩, ?_⟩
      · rw [hstart]
        exact ⟨hat, hreadonly⟩
      · intro front hfront _ entry hentry
        have hbefore := hmodifiers entry hentry
        replace hfront : ref = front + 1 := hfront
        omega

namespace Parse

variable {input : Input} {state : ParseState} {place : Nat} {nested : Parse TypeSyntax}

theorem refQualifier?_cases (hclear : input.sentence.Clear place state.position) :
    Ends refQualifier? input state fun qualifier? after =>
      (∃ qualifier, qualifier? = some qualifier ∧ qualifier.Whole input.sentence place ∧
          input.sentence.Clear (place + 1) after.position) ∨
        (qualifier? = none ∧ after = state ∧
          input.sentence.qualifierAt state.position = false) := by
  unfold refQualifier?
  refine .askIf (fun hboth => ?_) fun hboth => .checkIf (fun href => ?_) fun href => ?_
  · obtain ⟨hreadonly, href⟩ : input.sentence.kindAt state.position = .readonlyKw ∧
        input.sentence.kindAt (state.position + 1) = .refKw := by simpa using hboth
    refine .noteHere (.advance (by simp [hreadonly]) ?_)
    refine .advance (by simp [href]) (.pure (.inl ⟨_, rfl, ?_, ?_⟩))
    · refine ⟨href, ?_, nofun, hclear.le⟩
      rintro _ ⟨⟩
      exact ⟨rfl, hreadonly⟩
    · have hle := hclear.le
      exact .next (by simp only; omega) (by rw [href]; exact nofun)
  · refine .noteHere (.advance (by simp [href]) (.pure (.inl ⟨_, rfl, ?_, ?_⟩)))
    · exact ⟨href, nofun, fun _ front hat hfront => hclear.whole front hat hfront href, hclear.le⟩
    · exact .next (Nat.succ_le_succ hclear.le) (by rw [href]; exact nofun)
  · refine .pure (.inr ⟨rfl, rfl, ?_⟩)
    rw [← Bool.not_eq_true, Sentence.qualifierAt_iff]
    simpa [href] using hboth

theorem refQualifier?_steady :
    Steady refQualifier? input place fun qualifier? =>
      ∀ qualifier ∈ qualifier?, qualifier.Whole input.sentence place := by
  intro state hclear
  refine (refQualifier?_cases hclear).imp ?_
  rintro qualifier? after (⟨qualifier, rfl, hwhole, hafter⟩ | ⟨rfl, rfl, -⟩)
  · refine ⟨?_, hafter.from_le (Nat.le_succ _)⟩
    rintro _ ⟨⟩
    exact hwhole
  · exact ⟨nofun, hclear⟩

def SteadyTypes (nested : Parse TypeSyntax) (input : Input) (place : Nat) : Prop :=
  Steady nested input place fun type => input.sentence.Plain [.type type]

theorem elementFront_onward {next : Option Nat → Nat → Option Nat → Parse ElementType}
    {post : ElementType → Prop}
    (hnext : ∀ readonly? here ref?, Steady (next readonly? here ref?) input place post) :
    Steady (do
      let readonly? ← if ← ask Sentence.qualifierAt then eat .readonlyKw else pure none
      let here ← position
      let skippedRef? ← eat .refKw
      next readonly? here skippedRef?) input place post := by
  have hplain : ∀ readonly?, Steady (do
      let here ← position
      let skippedRef? ← eat .refKw
      next readonly? here skippedRef?) input place post := fun readonly? =>
    .position fun here => (eat_steady (by decide)).bind fun ref? _ => hnext readonly? here ref?
  intro state hclear
  refine .ask fun atRef hat => .ite (fun hyes => ?_) fun _ => .pureBind (hplain _ _ hclear)
  refine (eat_ends (by decide)).bind ?_
  rintro readonly? after (⟨hreadonly, rfl, rfl⟩ | ⟨-, rfl, rfl⟩)
  · have href : input.sentence.kindAt (state.position + 1) = .refKw := by
      simpa [Sentence.qualifierAt, hreadonly, hyes] using hat
    refine .position ((eat_ends (by decide)).bind ?_)
    rintro skippedRef? after (⟨-, rfl, rfl⟩ | ⟨hno, -⟩)
    · have hle := hclear.le
      exact hnext _ _ _ _ (.next (by simp only; omega) (by rw [href]; decide))
    · exact absurd href hno
  · exact hplain _ _ hclear

theorem elementType_steady (hnested : SteadyTypes nested input place) (named : Bool) :
    Steady (elementType nested named) input place fun element =>
      input.sentence.Plain [.type element.type] := by
  unfold elementType
  refine .position fun start => elementFront_onward fun readonly? here ref? => ?_
  refine .skip (.noted _) (hnested.bind fun type htype => ?_)
  exact .join (eatIf_steady (by decide)) fun name? _ => .rangeFrom fun range => .pure htype

theorem typeArguments_kept (hnested : SteadyTypes nested input place)
    (hclear : input.sentence.Clear place state.position)
    (hkind : input.sentence.kindAt state.position ≠ .readonlyKw) :
    Ends (typeArguments nested) input state
      (Kept input place fun args => input.sentence.Plain args.nodes) := by
  unfold typeArguments
  refine (advance_kept hclear hkind).onward fun lt _ => ?_
  refine (separated_steady (elementType_steady hnested false)).bind fun args hargs => ?_
  exact (expect_steady (by decide)).bind fun gt? _ => .pure (.map hargs)

theorem plain_type {type : TypeSyntax} (hbyRef : type.isByRef = false)
    (h : input.sentence.Plain (type.children.map .type)) :
    input.sentence.Plain [.type type] :=
  .single hbyRef (.of_plain rfl h)

theorem plain_elements {elements : List ElementType}
    (h : ∀ element ∈ elements, input.sentence.Plain [.type element.type]) :
    input.sentence.Plain ((elements.map (·.type)).map .type) := by
  rw [List.map_map]
  exact .map h

theorem tupleType_kept (hnested : SteadyTypes nested input place)
    (hclear : input.sentence.Clear place state.position)
    (hkind : input.sentence.kindAt state.position = .lParen) :
    Ends (tupleType nested) input state
      (Kept input place fun type => input.sentence.Plain [.type type]) := by
  unfold tupleType
  refine .position (.noteHere (.onward (advance_kept hclear (by simp [hkind])) fun opening _ => ?_))
  refine (separated_steady (elementType_steady hnested true)).bind fun elements helements => ?_
  refine (expect_steady (by decide)).bind fun closing? _ => .skip (.noted _) ?_
  exact .rangeFrom fun range => .pure (plain_type rfl (plain_elements helements))

theorem simpleName_kept (hnested : SteadyTypes nested input place)
    (hclear : input.sentence.Clear place state.position)
    (hkind : input.sentence.kindAt state.position = .identifier) :
    Ends (simpleName nested) input state
      (Kept input place fun type => input.sentence.Plain [.type type]) := by
  unfold simpleName
  refine .position ((advance_kept hclear (by simp [hkind])).onward fun name _ => ?_)
  refine .checkIf (fun before hclear hlt => ?_) (.rangeFrom fun range => .pure ?_)
  · refine (typeArguments_kept hnested hclear (by simp [hlt])).onward fun args hargs => ?_
    refine .rangeFrom fun range => .pure (plain_type rfl ?_)
    rwa [TypeSyntax.children, List.map_map]
  · exact plain_type rfl .nil

theorem segment?_steady (hnested : SteadyTypes nested input place) (start : Nat)
    {left : TypeSyntax} (hleft : input.sentence.Plain [.type left]) :
    SteadySome (segment? nested start left) input place fun type =>
      input.sentence.Plain [.type type] := by
  intro state hclear
  unfold segment?
  refine .askIf (fun hboth => ?_) fun _ => .pure ⟨nofun, hclear⟩
  obtain ⟨hdot, hname⟩ : input.sentence.kindAt state.position = .dot ∧
      input.sentence.kindAt (state.position + 1) = .identifier := by simpa using hboth
  refine .advance (by simp [hdot]) ?_
  refine (simpleName_kept hnested (hclear.taken hdot nofun) hname).onward fun right hright => ?_
  refine .rangeFrom fun range => .pure ?_
  rintro _ ⟨⟩
  exact plain_type rfl (hleft.append hright)

theorem qualifiedName_kept (hnested : SteadyTypes nested input place)
    (hclear : input.sentence.Clear place state.position)
    (hkind : input.sentence.kindAt state.position = .identifier) :
    Ends (qualifiedName nested) input state
      (Kept input place fun type => input.sentence.Plain [.type type]) :=
  .position ((simpleName_kept hnested hclear hkind).onward fun _ hname =>
    grow_steady (fun _ hleft => segment?_steady hnested _ hleft) hname)

theorem arrayRank_kept (hclear : input.sentence.Clear place state.position)
    (hkind : input.sentence.kindAt state.position = .lBracket) :
    Ends arrayRank input state (Kept input place fun _ => True) := by
  have hcomma : SteadySome (eat .comma) input place fun _ => True :=
    (eat_steady (by decide)).imp fun _ _ _ _ => trivial
  unfold arrayRank
  refine (advance_kept hclear (by simp [hkind])).onward fun opening _ => ?_
  refine (many_steady hcomma).bind fun commas _ => ?_
  exact (expect_steady (by decide)).bind fun closing? _ => .pure trivial

theorem arrayRanks_steady : Steady (many arrayRank?) input place fun _ => True := by
  have hrank : SteadySome arrayRank? input place fun _ => True :=
    whenever_steady fun state hclear hrank =>
      arrayRank_kept hclear (Sentence.kindAt_of_rankAt hrank)
  exact (many_steady hrank).imp fun _ _ => trivial

theorem typeSuffix?_steady (start : Nat) {type : TypeSyntax}
    (htype : input.sentence.Plain [.type type]) :
    SteadySome (typeSuffix? start type) input place fun grown =>
      input.sentence.Plain [.type grown] := by
  have hsome : ∀ {grown : TypeSyntax}, input.sentence.Plain [.type grown] →
      ∀ value ∈ some grown, input.sentence.Plain [.type value] := by
    rintro grown hgrown _ ⟨⟩
    exact hgrown
  unfold typeSuffix?
  refine .kind fun state kind hclear hkind => ?_
  split
  · refine .ite (fun _ => .pure ⟨nofun, hclear⟩) fun _ => ?_
    refine (advance_kept hclear (by simp [hkind])).onward fun question _ => ?_
    exact .rangeFrom fun range => .pure (hsome (plain_type rfl htype))
  · refine (advance_kept hclear (by simp [hkind])).onward fun star _ => ?_
    exact .rangeFrom fun range => .pure (hsome (plain_type rfl htype))
  · refine (arrayRanks_steady state hclear).onward fun ranks _ => ?_
    cases ranks with
    | nil => exact .pure nofun
    | cons rank ranks => exact .rangeFrom fun range => .pure (hsome (plain_type rfl htype))
  · exact .pure ⟨nofun, hclear⟩

theorem missingType_steady : SteadyTypes missingType input place :=
  .noteHere (.position fun _ => .pure (plain_type rfl .nil))

theorem typeStep_steady (hnested : SteadyTypes nested input place) :
    SteadyTypes (typeStep nested) input place := by
  have hgrown : ∀ start type, input.sentence.Plain [.type type] →
      SteadyTypes (grow (typeSuffix? start) type) input place := fun start type htype =>
    grow_steady (fun type htype => typeSuffix?_steady start htype) htype
  unfold typeStep
  refine .position fun start => .kind fun state kind hclear hkind => ?_
  split
  · exact (qualifiedName_kept hnested hclear hkind).onward fun name hname => hgrown _ _ hname
  · exact (tupleType_kept hnested hclear hkind).onward fun tuple htuple => hgrown _ _ htuple
  · refine .ite (fun hpredefined => ?_) fun _ => missingType_steady state hclear
    refine .onward (advance_told hclear hkind hpredefined nofun) fun keyword _ => ?_
    refine .rangeFrom fun range => ?_
    exact hgrown _ _ (plain_type rfl .nil)

theorem typeWithin_steady (n : Nat) : SteadyTypes (typeWithin n) input place := by
  induction n with
  | zero => exact missingType_steady
  | succ n ih => exact typeStep_steady ih

theorem type_steady : SteadyTypes type input place := .left typeWithin_steady

theorem qualifiedType_steady {modifiers : ModifierSet} {qualifier? : Option RefQualifier}
    (hqualifier : ∀ qualifier ∈ qualifier?, qualifier.Behind input.sentence modifiers) :
    Steady (qualifiedType qualifier?) input place (input.sentence.Declares modifiers) := by
  have hplain : ∀ {type}, input.sentence.Plain [.type type] →
      input.sentence.Declares modifiers type := by
    intro type htype
    refine ⟨htype.placed, ?_⟩
    rintro range qualifier inner rfl
    cases (htype _ (List.mem_singleton_self _)).1
  unfold qualifiedType
  cases qualifier? with
  | none => exact type_steady.imp fun type htype => hplain htype
  | some qualifier =>
      refine type_steady.bind fun inner hinner state hclear => .rangeFrom ?_
      refine .pure ⟨?_, hclear⟩
      unfold TypeSyntax.qualify
      split
      · exact hplain hinner
      · refine ⟨.of_plain rfl hinner, ?_⟩
        rintro _ _ _ ⟨⟩
        exact (hqualifier qualifier rfl).standsAt rfl

end Parse
end TolerantSyntax
