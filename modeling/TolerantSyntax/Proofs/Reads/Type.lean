import TolerantSyntax.Grammar.Type
import TolerantSyntax.Proofs.Parse.Reads

/-!
# Types are read as they stand

Every production of the type grammar covers its step with the pieces of its tree.  Behind
a suffix loop no rank is left, and a type never has a qualifier of its own.
-/

namespace TolerantSyntax.Parse

open Sentence (Covers)

variable {input : Input} {state origin : ParseState} {nested : Parse TypeSyntax}

theorem refQualifier?_covers : ReadsSome refQualifier? input (·.pieces) := by
  intro state
  unfold refQualifier?
  refine .askIf (fun hboth => ?_) fun _ => .checkIf (fun href => ?_) fun _ => .pure rfl
  · obtain ⟨hreadonly, href⟩ : input.sentence.kindAt state.position = .readonlyKw ∧
        input.sentence.kindAt (state.position + 1) = .refKw := by simpa using hboth
    apply (uses_covers _).bind
    rintro _ after₁ ⟨hat, huses⟩
    apply (advance_covers (by simp [hat, hreadonly])).bind
    intro readonly after₂ h
    obtain ⟨-, hnext, hfirst⟩ := h
    apply (advance_covers (by simp [hnext, hat, href])).bind
    intro ref after₃ h
    exact .pure (huses.trans (hfirst.trans h.2.2))
  · apply (uses_covers _).bind
    rintro _ after₁ ⟨hat, huses⟩
    apply (advance_covers (by simp [hat, href])).bind
    intro ref after₂ h
    exact .pure (huses.trans h.2.2)

theorem eatIf_covers {condition : Prop} [Decidable condition] {kind : TokenKind}
    (hkind : kind ≠ .eof) :
    Reads (if condition then eat kind else pure none) input Piece.optional := by
  intro state
  exact .ite (fun _ => eat_covers hkind state) fun _ => .pure .refl

theorem elementType_covers (hnested : Reads nested input (·.pieces)) (named : Bool) :
    Reads (elementType nested named) input (·.pieces) := by
  intro state
  unfold elementType
  refine .position (.ask fun atRef _ => .join (eatIf_covers (by decide) state) ?_)
  intro readonly? after₁ hreadonly
  apply Ends.position
  apply (eat_covers (by decide) after₁).bind
  intro ref? after₂ href
  refine .skip (fun after => input.sentence.Covers (skippedPieces ref?) after₁ after)
    (fun hsome => ?_) (fun hnone => ?_) fun after₃ hskipped => ?_
  · cases ref? with
    | none => simp at hsome
    | some ref => exact note_covers href rfl
  · cases ref? with
    | none => exact href
    | some ref => simp at hnone
  · apply (hnested after₃).bind
    intro type after₄ htype
    refine .join (eatIf_covers (by decide) after₄) fun name? after₅ hname => ?_
    exact .rangeFrom (.pure (((hreadonly.trans hskipped).trans htype).trans hname))

theorem elements_covers (hnested : Reads nested input (·.pieces)) (named : Bool) :
    Ends (separated (elementType nested named)) input state fun elements after =>
      elements ≠ [] ∧
        input.sentence.Covers (Piece.joined (elementPieces elements)) state after := by
  apply (separated_covers (elementType_covers hnested named)).imp
  intro elements after h
  rw [elementPieces_eq]
  exact h

theorem typeArguments_covers (hnested : Reads nested input (·.pieces))
    (hkind : input.sentence.kindAt state.position ≠ .eof) :
    Ends (typeArguments nested) input state fun args after =>
      input.sentence.Covers args.pieces state after := by
  unfold typeArguments
  apply (advance_covers hkind).bind
  rintro lt after₁ ⟨-, -, hlt⟩
  apply (separated_covers (elementType_covers hnested false)).bind
  intro args after₂ hargs
  apply (expect_covers (by decide) after₂).bind
  intro gt? after₃ hgt
  exact .pure (hlt.trans (hargs.2.trans hgt))

theorem tupleType_covers (hnested : Reads nested input (·.pieces))
    (hkind : input.sentence.kindAt state.position ≠ .eof) :
    Ends (tupleType nested) input state fun type after =>
      type.isByRef = false ∧ input.sentence.Covers type.pieces state after := by
  unfold tupleType
  apply Ends.position
  apply (uses_covers _).bind
  rintro _ after₁ ⟨hat, huses⟩
  apply (advance_covers (by rw [hat]; exact hkind)).bind
  rintro opening after₂ ⟨-, -, hopening⟩
  apply (elements_covers hnested true).bind
  rintro elements after₃ ⟨-, helements⟩
  apply (expect_covers (by decide) after₃).bind
  intro closing? after₄ hclosing
  have hbody := huses.trans (hopening.trans (helements.trans hclosing))
  refine .skip (fun after => input.sentence.Covers
    (TypeSyntax.tuple default opening elements closing?).pieces state after)
    (fun hshort => ?_) (fun hlong => ?_) fun after₅ htuple => ?_
  · exact note_covers hbody rfl
  · simpa [TypeSyntax.pieces, hlong] using hbody
  · exact .rangeFrom (.pure ⟨rfl, htuple⟩)

theorem simpleName_covers (hnested : Reads nested input (·.pieces))
    (hkind : input.sentence.kindAt state.position ≠ .eof) :
    Ends (simpleName nested) input state fun type after =>
      type.isByRef = false ∧ state.position < after.position ∧
        input.sentence.Covers type.pieces state after := by
  unfold simpleName
  apply Ends.position
  apply (advance_covers hkind).bind
  rintro name after₁ ⟨-, hnext, hname⟩
  refine .checkIf (fun hlt => ?_) fun _ => ?_
  · apply (typeArguments_covers hnested (by simp [hlt])).bind
    intro args after₂ hargs
    have hforward := hargs.forward
    refine .rangeFrom (.pure ⟨rfl, by omega, ?_⟩)
    rw [TypeSyntax.pieces, elementPieces_eq]
    exact hname.trans hargs
  · exact .rangeFrom (.pure ⟨rfl, by omega, hname⟩)

theorem segment?_covers (hnested : Reads nested input (·.pieces)) (start : Nat)
    {left : TypeSyntax} (hleft : input.sentence.Covers left.pieces origin state) :
    Ends (segment? nested start left) input state fun type? after =>
      match type? with
      | none => after = state
      | some type => type.isByRef = false ∧ input.sentence.Covers type.pieces origin after := by
  unfold segment?
  refine .askIf (fun hsegment => ?_) fun _ => .pure rfl
  obtain ⟨hdot, hname⟩ : input.sentence.kindAt state.position = .dot ∧
      input.sentence.kindAt (state.position + 1) = .identifier := by simpa using hsegment
  apply (advance_covers (by simp [hdot])).bind
  rintro dot after₁ ⟨-, hnext, hdot⟩
  apply (simpleName_covers hnested (by simp [hnext, hname])).bind
  intro right after₂ h
  exact .rangeFrom (.pure ⟨rfl, hleft.trans (hdot.trans h.2.2)⟩)

theorem qualifiedName_covers (hnested : Reads nested input (·.pieces))
    (hkind : input.sentence.kindAt state.position ≠ .eof) :
    Ends (qualifiedName nested) input state fun type after =>
      type.isByRef = false ∧ input.sentence.Covers type.pieces state after := by
  unfold qualifiedName
  apply Ends.position
  apply (simpleName_covers hnested hkind).bind
  intro first after₁ h
  refine grow_ends
    (fun type : TypeSyntax => fun after =>
      type.isByRef = false ∧ input.sentence.Covers type.pieces state after)
    ?_ ⟨h.1, h.2.2⟩
  intro left before hleft
  apply (segment?_covers hnested state.position hleft.2).imp
  intro type? after h
  cases type? with
  | none => exact h ▸ hleft
  | some type => exact h

/-! ## Suffixes and types -/

theorem arrayRank_covers (hkind : input.sentence.kindAt state.position ≠ .eof) :
    Ends arrayRank input state fun rank after =>
      state.position < after.position ∧ input.sentence.Covers rank.pieces state after := by
  unfold arrayRank
  apply (advance_covers hkind).bind
  rintro opening after₁ ⟨-, hnext, hopening⟩
  apply (many_covers (eat_implied (by decide)) after₁).bind
  intro commas after₂ hcommas
  apply (expect_covers (by decide) after₂).bind
  intro closing? after₃ hclosing
  have hforward := (hcommas.trans hclosing).forward
  refine .pure ⟨by omega, ?_⟩
  have hpieces : commas.flatMap (fun _ => [Piece.symbol .comma]) =
      List.replicate commas.length (.symbol .comma) := by
    rw [← List.map_const', List.map_eq_flatMap]
  simp only [hpieces] at hcommas
  exact hopening.trans (hcommas.trans hclosing)

theorem arrayRanks_covers :
    Ends (many arrayRank?) input state fun ranks after =>
      input.sentence.rankAt after.position = false ∧
        (ranks = [] → after = state) ∧ (ranks ≠ [] → state.position < after.position) ∧
        input.sentence.Covers (ranks.flatMap (·.pieces)) state after := by
  refine many_done
    (fun ranks after => (ranks = [] → after = state) ∧
      (ranks ≠ [] → state.position < after.position) ∧
      input.sentence.Covers (ranks.flatMap (·.pieces)) state after) ?_ ?_
    ⟨fun _ => rfl, fun h => absurd rfl h, .refl⟩
  · intro ranks before ⟨hnil, hcons, hranks⟩
    refine whenever_ends (fun hrank => ?_) fun hrank => ⟨hrank, hnil, hcons, hranks⟩
    have hbracket := Sentence.kindAt_of_rankAt hrank
    apply (arrayRank_covers (by simp [hbracket])).imp
    rintro rank after ⟨hnext, hcovers⟩
    have hforward := hranks.forward
    refine ⟨⟨by simp, fun _ => by omega, ?_⟩, hnext⟩
    simpa using hranks.trans hcovers
  · intro ranks before hinv hsize
    have hrank : input.sentence.rankAt before.position = false :=
      Sentence.rankAt_of_ne (by simp [Sentence.kindAt_eq_eof hsize])
    exact ⟨hrank, hinv⟩

theorem typeSuffix?_covers (start : Nat) {type : TypeSyntax}
    (htype : input.sentence.Covers type.pieces origin state) :
    Ends (typeSuffix? start type) input state fun grown? after =>
      match grown? with
      | none => after = state ∧ input.sentence.rankAt after.position = false
      | some grown =>
          (grown.isByRef = false ∧ input.sentence.Covers grown.pieces origin after) ∧
            state.position < after.position := by
  unfold typeSuffix?
  apply Ends.kind
  intro kind hkind
  split
  · apply Ends.ite
    · intro _
      exact .pure ⟨rfl, Sentence.rankAt_of_ne (by simp [hkind])⟩
    · intro _
      apply (advance_covers (by simp [hkind])).bind
      rintro question after₁ ⟨-, hnext, h⟩
      exact .rangeFrom (.pure ⟨⟨rfl, htype.trans h⟩, by omega⟩)
  · apply (advance_covers (by simp [hkind])).bind
    rintro star after₁ ⟨-, hnext, h⟩
    exact .rangeFrom (.pure ⟨⟨rfl, htype.trans h⟩, by omega⟩)
  · apply arrayRanks_covers.bind
    rintro ranks after₁ ⟨hrank, hnil, hcons, hranks⟩
    cases ranks with
    | nil => exact .pure ⟨hnil rfl, hrank⟩
    | cons rank ranks =>
        exact .rangeFrom (.pure ⟨⟨rfl, htype.trans hranks⟩, hcons (by simp)⟩)
  · rename_i hquestion hstar hbracket
    rw [← hkind] at hbracket
    exact .pure ⟨rfl, Sentence.rankAt_of_ne hbracket⟩

theorem typeSuffixes_covers (start : Nat) {type : TypeSyntax} (hplain : type.isByRef = false)
    (htype : input.sentence.Covers type.pieces origin state) :
    Ends (grow (typeSuffix? start) type) input state fun type after =>
      type.isByRef = false ∧ input.sentence.rankAt after.position = false ∧
        input.sentence.Covers type.pieces origin after := by
  refine grow_done
    (fun type : TypeSyntax => fun after =>
      type.isByRef = false ∧ input.sentence.Covers type.pieces origin after) ?_ ?_
    ⟨hplain, htype⟩
  · intro type before ⟨hplain, htype⟩
    apply (typeSuffix?_covers start htype).imp
    intro grown? after h
    cases grown? with
    | none =>
        obtain ⟨rfl, hrank⟩ := h
        exact ⟨hplain, hrank, htype⟩
    | some grown => exact h
  · intro type before ⟨hplain, htype⟩ hsize
    have hrank : input.sentence.rankAt before.position = false :=
      Sentence.rankAt_of_ne (by simp [Sentence.kindAt_eq_eof hsize])
    exact ⟨hplain, hrank, htype⟩

def ReadsType (parse : Parse TypeSyntax) (input : Input) : Prop :=
  ∀ state, Ends parse input state fun type after =>
    type.isByRef = false ∧
      (type.isMissing = true ∨ input.sentence.rankAt after.position = false) ∧
      input.sentence.Covers type.pieces state after

theorem ReadsType.reads {parse : Parse TypeSyntax} (h : ReadsType parse input) :
    Reads parse input (·.pieces) := fun state => (h state).imp fun _ _ h => h.2.2

theorem missing_mem_pieces {type : TypeSyntax} (h : type.isMissing = true) :
    .artefact .missingType ∈ type.pieces := by
  cases type with
  | missing range => exact List.mem_singleton_self _
  | _ => exact absurd h (by simp [TypeSyntax.isMissing])

theorem missingType_covers : ReadsType missingType input := by
  intro state
  unfold missingType
  apply (noteHere_covers [.artefact .missingType] .refl rfl).bind
  intro _ after₁ h
  exact .position (.pure ⟨rfl, .inl rfl, h.2⟩)

theorem typeStep_covers (hnested : Reads nested input (·.pieces)) :
    ReadsType (typeStep nested) input := by
  intro state
  unfold typeStep
  apply Ends.position
  apply Ends.kind
  intro kind hkind
  split
  · apply (qualifiedName_covers hnested (by simp [hkind])).bind
    intro name after₁ h
    apply (typeSuffixes_covers _ h.1 h.2).imp
    intro type after h
    exact ⟨h.1, .inr h.2.1, h.2.2⟩
  · apply (tupleType_covers hnested (by simp [hkind])).bind
    intro tuple after₁ h
    apply (typeSuffixes_covers _ h.1 h.2).imp
    intro type after h
    exact ⟨h.1, .inr h.2.1, h.2.2⟩
  · refine .ite (fun hpredefined => ?_) fun _ => missingType_covers state
    have hkind' : input.sentence.kindAt state.position ≠ .eof := by
      intro heof
      rw [← hkind, heof] at hpredefined
      exact absurd hpredefined (by decide)
    refine (advance_covers hkind').bind fun keyword after₁ ⟨_, _, h⟩ => .rangeFrom ?_
    apply (typeSuffixes_covers _ rfl h).imp
    intro type after h
    exact ⟨h.1, .inr h.2.1, h.2.2⟩

theorem typeWithin_covers (n : Nat) : ReadsType (typeWithin n) input := by
  induction n with
  | zero => exact missingType_covers
  | succ n ih => exact typeStep_covers ih.reads

theorem type_covers : ReadsType type input := by
  intro state
  unfold type
  exact .left (typeWithin_covers _ state)

theorem qualifiedType_covers {qualifier? : Option RefQualifier}
    (h : input.sentence.Covers (qualifier?.toList.flatMap (·.pieces)) origin state) :
    Ends (qualifiedType qualifier?) input state fun type after =>
      input.sentence.Covers type.pieces origin after := by
  unfold qualifiedType
  cases qualifier? with
  | none => exact (type_covers state).imp fun type after htype => h.trans htype.2.2
  | some qualifier =>
      apply (type_covers state).bind
      rintro type after ⟨hplain, _, htype⟩
      refine .rangeFrom (.pure ?_)
      have hqualified := h.trans htype
      simpa [TypeSyntax.qualify, hplain, TypeSyntax.pieces] using hqualified

end TolerantSyntax.Parse
