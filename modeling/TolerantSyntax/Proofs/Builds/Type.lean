import TolerantSyntax.Proofs.Parse.Gives
import TolerantSyntax.Proofs.Reads.Type

/-!
# Types are built as they stand

The range of a type is the step that reads it.  Suffixes wrap the type in front of them,
so every round of their loop starts where the whole type does.
-/

namespace TolerantSyntax

open Layout (Builds)

structure TypeSyntax.BuiltOn (type : TypeSyntax) (before after : ParseState) : Prop where
  range : type.range = ⟨before.position, after.position⟩
  parts : Builds type.parts before after

theorem TypeSyntax.BuiltOn.layout {type : TypeSyntax} {before after : ParseState}
    (h : type.BuiltOn before after) : Builds [type.layout] before after := by
  rw [TypeSyntax.layout, h.range]
  exact h.parts.node

def RefQualifier.BuiltOn? (qualifier? : Option RefQualifier) (before after : ParseState) : Prop :=
  match qualifier? with
  | none => after = before
  | some qualifier =>
      qualifier.firstToken = before.position ∧ before.position < after.position ∧
        Builds qualifier.parts before after

namespace Parse

variable {input : Input} {state origin : ParseState} {nested : Parse TypeSyntax}

theorem refQualifier?_builds :
    Ends refQualifier? input state fun qualifier? after =>
      RefQualifier.BuiltOn? qualifier? state after := by
  unfold refQualifier?
  refine .askIf (fun hboth => ?_) fun _ => .checkIf (fun href => ?_) fun _ => .pure rfl
  · obtain ⟨hreadonly, href⟩ : input.sentence.kindAt state.position = .readonlyKw ∧
        input.sentence.kindAt (state.position + 1) = .refKw := by simpa using hboth
    refine gated (by simp [hreadonly]) fun after₁ hnext hfirst => ?_
    refine (advance_builds (by simp [hnext, href])).bind ?_
    rintro ref after₂ ⟨-, hnext', href'⟩
    exact .pure ⟨rfl, by omega, hfirst.trans href'⟩
  · refine gated (by simp [href]) fun after₁ hnext hfirst => ?_
    exact .pure ⟨rfl, by omega, hfirst⟩

theorem eatIf_builds {condition : Prop} [Decidable condition] {kind : TokenKind}
    (hkind : kind ≠ .eof) :
    Gives (if condition then eat kind else pure none) input Layout.tokens? :=
  fun state => .ite (fun _ => eat_builds hkind state) fun _ => .pure .refl

theorem elementType_builds (hnested : Gives nested input fun type => [type.layout])
    (named : Bool) : Gives (elementType nested named) input fun element => [element.layout] := by
  intro state
  unfold elementType
  refine .position (.ask fun atRef _ => .join (eatIf_builds (by decide) state) ?_)
  intro readonly? after₁ hreadonly
  refine .position ((eat_builds (by decide) after₁).bind fun ref? after₂ href => ?_)
  refine .skip (fun after => Builds (Layout.tokens? ref?) after₁ after)
    (fun _ => note_builds href rfl) (fun _ => href) fun after₃ href => ?_
  refine (hnested after₃).bind fun type after₄ htype => ?_
  refine .join (eatIf_builds (by decide) after₄) fun name? after₅ hname => ?_
  have helement := (hreadonly.trans href).trans (htype.trans hname)
  exact rangeFrom_step helement.forward (.pure helement.node)

theorem elements_build (hnested : Gives nested input fun type => [type.layout]) (named : Bool) :
    Gives (separated (elementType nested named)) input (·.map (·.layout)) := by
  simpa only [List.map_eq_flatMap] using separated_builds (elementType_builds hnested named)

theorem typeArguments_builds (hnested : Gives nested input fun type => [type.layout])
    (hkind : input.sentence.kindAt state.position ≠ .eof) :
    Ends (typeArguments nested) input state fun args after =>
      Builds args.parts state after := by
  unfold typeArguments
  refine (advance_token hkind).bind fun lt after₁ hlt => ?_
  refine (elements_build hnested false after₁).bind fun args after₂ hargs => ?_
  refine (expect_builds (by decide) after₂).bind fun gt? after₃ hgt => ?_
  exact .pure (hlt.trans (hargs.trans hgt))

theorem tupleType_builds (hnested : Gives nested input fun type => [type.layout])
    (hkind : input.sentence.kindAt state.position ≠ .eof) :
    Ends (tupleType nested) input state fun type after =>
      state.position < after.position ∧ type.BuiltOn state after := by
  unfold tupleType
  refine .position (gated hkind fun after₁ hnext hopening => ?_)
  refine (elements_build hnested true after₁).bind fun elements after₂ helements => ?_
  refine (expect_builds (by decide) after₂).bind fun closing? after₃ hclosing => ?_
  have hparts := hopening.trans (helements.trans hclosing)
  refine .skip (fun after => after.position = after₃.position ∧
      Builds (.gate .tuples state.position ::
        (elements.map (·.layout) ++ Layout.tokens? closing?)) state after)
    (fun _ => ⟨rfl, hparts.noted rfl⟩) (fun _ => ⟨rfl, hparts⟩) ?_
  rintro after₄ ⟨hat, hparts⟩
  have hforward := (helements.trans hclosing).forward
  refine rangeFrom_step hparts.forward (.pure ⟨by omega, rfl, ?_⟩)
  rw [TypeSyntax.parts, elementLayouts_eq]
  exact hparts

theorem simpleName_builds (hnested : Gives nested input fun type => [type.layout])
    (hkind : input.sentence.kindAt state.position ≠ .eof) :
    Ends (simpleName nested) input state fun type after =>
      state.position < after.position ∧ type.BuiltOn state after := by
  unfold simpleName
  refine .position ((advance_builds hkind).bind ?_)
  rintro name after₁ ⟨-, hnext, hname⟩
  refine .checkIf (fun hlt => ?_) fun _ => ?_
  · refine (typeArguments_builds hnested (by simp [hlt])).bind fun args after₂ hargs => ?_
    have hforward := hargs.forward
    refine rangeFrom_step (by omega) (.pure ⟨by omega, rfl, ?_⟩)
    rw [TypeSyntax.parts, elementLayouts_eq]
    exact hname.trans hargs
  · exact rangeFrom_step hname.forward (.pure ⟨by omega, rfl, hname⟩)

theorem segment?_builds (hnested : Gives nested input fun type => [type.layout])
    {left : TypeSyntax} (hleft : left.BuiltOn origin state) :
    Ends (segment? nested origin.position left) input state fun type? after =>
      match type? with
      | none => after = state
      | some type => state.position < after.position ∧ type.BuiltOn origin after := by
  unfold segment?
  refine .askIf (fun hsegment => ?_) fun _ => .pure rfl
  obtain ⟨hdot, hname⟩ : input.sentence.kindAt state.position = .dot ∧
      input.sentence.kindAt (state.position + 1) = .identifier := by simpa using hsegment
  refine (advance_builds (by simp [hdot])).bind ?_
  rintro dot after₁ ⟨-, hnext, hdot⟩
  refine (simpleName_builds hnested (by simp [hnext, hname])).bind ?_
  rintro right after₂ ⟨hprogress, hright⟩
  have hparts := hleft.layout.trans (hdot.trans hright.layout)
  exact rangeFrom_step hparts.forward (.pure ⟨by omega, rfl, hparts⟩)

theorem qualifiedName_builds (hnested : Gives nested input fun type => [type.layout])
    (hkind : input.sentence.kindAt state.position ≠ .eof) :
    Ends (qualifiedName nested) input state fun type after =>
      state.position < after.position ∧ type.BuiltOn state after := by
  unfold qualifiedName
  refine .position ((simpleName_builds hnested hkind).bind fun first after₁ hfirst => ?_)
  refine grow_ends (fun type : TypeSyntax => fun after =>
    state.position < after.position ∧ type.BuiltOn state after) ?_ hfirst
  rintro left before ⟨hprogress, hleft⟩
  refine (segment?_builds hnested hleft).imp fun type? after h => ?_
  cases type? with
  | none => exact h ▸ ⟨hprogress, hleft⟩
  | some type => exact ⟨Nat.lt_trans hprogress h.1, h.2⟩

theorem arrayRank_builds (hkind : input.sentence.kindAt state.position ≠ .eof) :
    Ends arrayRank input state fun rank after => Builds rank.parts state after := by
  unfold arrayRank
  refine (advance_token hkind).bind fun opening after₁ hopening => ?_
  refine (many_passes (eat_passes (by decide)) after₁).bind fun commas after₂ hcommas => ?_
  refine (expect_builds (by decide) after₂).bind fun closing? after₃ hclosing => ?_
  exact .pure (hopening.trans (hcommas.trans hclosing))

theorem arrayRank?_builds : GivesSome arrayRank? input (·.parts) := by
  refine whenever_builds fun state hrank => arrayRank_builds ?_
  simp [Sentence.kindAt_of_rankAt hrank]

theorem typeSuffix?_builds {type : TypeSyntax} (htype : type.BuiltOn origin state) :
    Ends (typeSuffix? origin.position type) input state fun grown? after =>
      match grown? with
      | none => after = state
      | some grown => state.position < after.position ∧ grown.BuiltOn origin after := by
  unfold typeSuffix?
  refine .kind fun kind hkind => ?_
  split
  · refine .ite (fun _ => .pure rfl) fun _ => ?_
    refine (advance_builds (by simp [hkind])).bind ?_
    rintro question after₁ ⟨-, hnext, hquestion⟩
    have hparts := htype.layout.trans hquestion
    exact rangeFrom_step hparts.forward (.pure ⟨by omega, rfl, hparts⟩)
  · refine (advance_builds (by simp [hkind])).bind ?_
    rintro star after₁ ⟨-, hnext, hstar⟩
    have hparts := htype.layout.trans hstar
    exact rangeFrom_step hparts.forward (.pure ⟨by omega, rfl, hparts⟩)
  · refine (arrayRanks_covers.and (many_builds arrayRank?_builds state)).bind ?_
    rintro ranks after₁ ⟨⟨-, hnil, hcons, -⟩, hranks⟩
    cases ranks with
    | nil => exact .pure (hnil rfl)
    | cons rank ranks =>
        have hparts := htype.layout.trans hranks
        exact rangeFrom_step hparts.forward (.pure ⟨hcons (by simp), rfl, hparts⟩)
  · exact .pure rfl

theorem typeSuffixes_build {type : TypeSyntax} (hprogress : origin.position < state.position)
    (htype : type.BuiltOn origin state) :
    Ends (grow (typeSuffix? origin.position) type) input state fun type after =>
      origin.position < after.position ∧ type.BuiltOn origin after := by
  refine grow_ends (fun type : TypeSyntax => fun after =>
    origin.position < after.position ∧ type.BuiltOn origin after) ?_ ⟨hprogress, htype⟩
  rintro type before ⟨hprogress, htype⟩
  refine (typeSuffix?_builds htype).imp fun grown? after h => ?_
  cases grown? with
  | none => exact h ▸ ⟨hprogress, htype⟩
  | some grown => exact ⟨Nat.lt_trans hprogress h.1, h.2⟩

def GivesType (parse : Parse TypeSyntax) (input : Input) : Prop :=
  ∀ state, Ends parse input state fun type after =>
    (type.isMissing = false → state.position < after.position) ∧ type.BuiltOn state after

theorem GivesType.gives {parse : Parse TypeSyntax} (h : GivesType parse input) :
    Gives parse input fun type => [type.layout] :=
  fun state => (h state).imp fun _ _ h => h.2.layout

theorem missingType_builds : GivesType missingType input := by
  intro state
  refine (noteHere_builds rfl).bind ?_
  rintro _ after ⟨hat, hnoted⟩
  refine .position (.pure ⟨nofun, ?_, hnoted⟩)
  rw [hat]
  rfl

theorem typeStep_builds (hnested : Gives nested input fun type => [type.layout]) :
    GivesType (typeStep nested) input := by
  intro state
  unfold typeStep
  refine .position (.kind fun kind hkind => ?_)
  split
  · refine (qualifiedName_builds hnested (by simp [hkind])).bind fun name after h => ?_
    exact (typeSuffixes_build h.1 h.2).imp fun _ _ h => ⟨fun _ => h.1, h.2⟩
  · refine (tupleType_builds hnested (by simp [hkind])).bind fun tuple after h => ?_
    exact (typeSuffixes_build h.1 h.2).imp fun _ _ h => ⟨fun _ => h.1, h.2⟩
  · refine .ite (fun hpredefined => ?_) fun _ => missingType_builds state
    have hkind' : input.sentence.kindAt state.position ≠ .eof := by
      rw [hkind]
      rintro rfl
      exact absurd hpredefined (by decide)
    refine (advance_builds hkind').bind fun keyword after₁ ⟨_, hnext, hkeyword⟩ => ?_
    refine rangeFrom_step hkeyword.forward ?_
    have htype : TypeSyntax.BuiltOn (.predefined ⟨state.position, after₁.position⟩ keyword)
        state after₁ := ⟨rfl, hkeyword⟩
    exact (typeSuffixes_build (by omega) htype).imp fun _ _ h => ⟨fun _ => h.1, h.2⟩

theorem typeWithin_builds (n : Nat) : GivesType (typeWithin n) input := by
  induction n with
  | zero => exact missingType_builds
  | succ n ih => exact typeStep_builds ih.gives

theorem type_builds : GivesType type input := fun state => .left (typeWithin_builds _ state)

theorem type_gives : Gives type input fun type => [type.layout] := type_builds.gives

theorem qualifiedType_builds {qualifier? : Option RefQualifier}
    (h : RefQualifier.BuiltOn? qualifier? origin state) :
    Ends (qualifiedType qualifier?) input state fun type after =>
      (type.isMissing = false → origin.position < after.position) ∧
        type.BuiltOn origin after := by
  unfold qualifiedType
  cases qualifier? with
  | none => exact h ▸ type_builds state
  | some qualifier =>
      obtain ⟨hfirst, hprogress, hqualifier⟩ := h
      refine ((type_covers state).and (type_builds state)).bind ?_
      rintro type after ⟨⟨hplain, -, -⟩, -, htype⟩
      have hparts := hqualifier.trans htype.layout
      have hforward := htype.parts.forward
      refine rangeFrom_step (by rw [hfirst]; exact hparts.forward) (.pure ?_)
      simp only [TypeSyntax.qualify, hplain, hfirst]
      exact ⟨fun _ => by omega, rfl, hparts⟩

end Parse
end TolerantSyntax
