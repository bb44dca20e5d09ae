import TolerantSyntax.Proofs.Reads.Part

/-!
# Members are read as they stand

A member covers its step, and its range is the whole step.  Every member that a list
reads takes a symbol, so the ranges of a list tile what the list takes.
-/

namespace TolerantSyntax

/-- The ranges are not empty and follow each other from `start` up to `stop`. -/
inductive TokenRange.Tile : List TokenRange → Nat → Nat → Prop where
  | nil (start : Nat) : Tile [] start start
  | cons {start middle stop : Nat} {rest : List TokenRange} (hlt : start < middle)
      (hrest : Tile rest middle stop) : Tile (⟨start, middle⟩ :: rest) start stop

theorem TokenRange.Tile.append_singleton {ranges : List TokenRange} {start middle stop : Nat}
    (h : Tile ranges start middle) (hlt : middle < stop) :
    Tile (ranges ++ [⟨middle, stop⟩]) start stop := by
  induction h with
  | nil start => exact .cons hlt (.nil stop)
  | cons hfirst hrest ih => exact .cons hfirst (ih hlt)

structure Sentence.CoversMember (sentence : Sentence) (member : Member)
    (before after : ParseState) : Prop where
  range : member.range = ⟨before.position, after.position⟩
  covers : sentence.Covers member.pieces before after

structure Sentence.CoversHead (sentence : Sentence) (head : MemberHead)
    (before after : ParseState) : Prop where
  start : head.start = before.position
  parts : ∃ middle, sentence.Covers head.modifiers.pieces before middle ∧
    sentence.Covers (head.qualifier?.toList.flatMap (·.pieces)) middle after

theorem Sentence.CoversHead.modifiers {sentence : Sentence} {head : MemberHead}
    {before after : ParseState} (h : sentence.CoversHead head before after)
    (hnone : head.qualifier?.isSome = false) :
    sentence.Covers head.modifiers.pieces before after := by
  obtain ⟨middle, hmodifiers, hqualifier⟩ := h.parts
  have hhead := hmodifiers.trans hqualifier
  have hqualifier? : head.qualifier? = none := by simpa using hnone
  rw [hqualifier?] at hhead
  simpa using hhead

namespace Parse

variable {input : Input} {state origin : ParseState} {head : MemberHead} {type : TypeSyntax}

theorem modifierAt?_ne_eof {sentence : Sentence} {index : Nat} {modifier : Modifier}
    (h : sentence.modifierAt? index = some modifier) : sentence.kindAt index ≠ .eof := by
  intro heof
  simp [Sentence.modifierAt?, Sentence.qualifierAt, Sentence.wordAt?, heof,
    Modifier.ofKeyword?] at h

theorem modifierEntry?_covers :
    ReadsSome modifierEntry? input fun entry => [.token entry.token] := by
  intro state
  unfold modifierEntry?
  apply Ends.ask
  intro modifier? hmodifier
  cases modifier? with
  | none => exact .pure rfl
  | some modifier =>
      apply (advance_covers (modifierAt?_ne_eof hmodifier)).bind
      rintro token after ⟨-, -, htoken⟩
      exact .pure htoken

theorem memberHead_covers :
    Ends memberHead input state fun head after =>
      input.sentence.CoversHead head state after := by
  unfold memberHead
  apply Ends.position
  apply (many_covers modifierEntry?_covers state).bind
  intro entries after₁ hentries
  simp only [entries_pieces] at hentries
  apply (refQualifier?_covers.reads after₁).bind
  intro qualifier? after₂ hqualifier
  exact .pure ⟨rfl, after₁, hentries, hqualifier⟩

theorem memberInfo_covers {make : MemberInfo → Member} (hstart : head.start = origin.position)
    (hrange : ∀ info, (make info).range = info.range)
    (h : ∀ range, input.sentence.Covers (make ⟨head.modifiers, range⟩).pieces origin state) :
    Ends (memberInfo head >>= fun info => pure (make info)) input state fun member after =>
      input.sentence.CoversMember member origin after := by
  have hforward := (h default).forward
  refine ⟨?_, h _⟩
  change (make ⟨head.modifiers, ⟨head.start, max head.start state.position⟩⟩).range = _
  rw [hrange, hstart, Nat.max_eq_right hforward]
  rfl

/-! ## Members -/

theorem fieldDecl_covers (hstart : head.start = origin.position)
    (htype : input.sentence.Covers (head.modifiers.pieces ++ type.pieces) origin state) :
    Ends (fieldDecl head type) input state fun member after =>
      input.sentence.CoversMember member origin after := by
  unfold fieldDecl
  apply (declarators_covers state).bind
  intro declarators after₁ hdeclarators
  apply (expect_covers (by decide) after₁).bind
  intro semicolon? after₂ hsemicolon
  apply memberInfo_covers hstart
  · intro info
    rfl
  · intro range
    exact (htype.trans hdeclarators).trans hsemicolon

theorem methodDecl_covers (hstart : head.start = origin.position)
    (htype : input.sentence.Covers (head.modifiers.pieces ++ type.pieces) origin state)
    (hkind : input.sentence.kindAt state.position ≠ .eof) :
    Ends (methodDecl head type) input state fun member after =>
      input.sentence.CoversMember member origin after := by
  unfold methodDecl
  apply (advance_covers hkind).bind
  rintro name after₁ ⟨-, -, hname⟩
  apply (typeParameters?_covers after₁).bind
  intro typeParams? after₂ htypeParams
  apply (roundParameters_covers after₂).bind
  intro params after₃ hparams
  apply (memberBody_covers after₃).bind
  intro body after₄ hbody
  apply memberInfo_covers hstart
  · intro info
    rfl
  · intro range
    exact htype.trans (hname.trans ((htypeParams.trans hparams).trans hbody))

theorem propertyDecl_covers (hstart : head.start = origin.position)
    (htype : input.sentence.Covers (head.modifiers.pieces ++ type.pieces) origin state)
    (hkind : input.sentence.kindAt state.position ≠ .eof) :
    Ends (propertyDecl head type) input state fun member after =>
      input.sentence.CoversMember member origin after := by
  unfold propertyDecl
  apply (advance_covers hkind).bind
  rintro name after₁ ⟨-, -, hname⟩
  apply (propertyBody_covers after₁).bind
  intro body after₂ hbody
  apply memberInfo_covers hstart
  · intro info
    rfl
  · intro range
    exact htype.trans (hname.trans hbody)

theorem indexerDecl_covers (hstart : head.start = origin.position)
    (htype : input.sentence.Covers (head.modifiers.pieces ++ type.pieces) origin state)
    (hkind : input.sentence.kindAt state.position ≠ .eof) :
    Ends (indexerDecl head type) input state fun member after =>
      input.sentence.CoversMember member origin after := by
  unfold indexerDecl
  apply (advance_covers hkind).bind
  rintro this after₁ ⟨-, -, hthis⟩
  apply (parameterList_covers (by decide) (by decide) after₁).bind
  intro params after₂ hparams
  apply (propertyBody_covers after₂).bind
  intro body after₃ hbody
  apply memberInfo_covers hstart
  · intro info
    rfl
  · intro range
    exact htype.trans (hthis.trans (hparams.trans hbody))

theorem declaredOperator?_covers :
    Ends declaredOperator? input state fun op? after =>
      (∀ op, op? = some op → op.start = state.position) ∧
        input.sentence.Covers
          (op?.elim [.artefact .absentToken] (·.indices.map .token)) state after := by
  unfold declaredOperator?
  apply Ends.position
  apply Ends.askIf
  · intro hshift
    obtain ⟨⟨hfirst, hsecond⟩, -⟩ : (input.sentence.kindAt state.position = .gt ∧
        input.sentence.kindAt (state.position + 1) = .gt) ∧
          input.sentence.joinedAt (state.position + 1) = true := by
      simpa [Sentence.shiftAt] using hshift
    have hmove : Ends (moveTo fun _ index => index + 2) input state fun _ after =>
        after.position = state.position + 2 ∧
          input.sentence.Covers [.token state.position, .token (state.position + 1)]
            state after := by
      have hgt : input.sentence.kindAt state.position ≠ .eof := by simp [hfirst]
      have hnext : input.sentence.kindAt
          ({ state with position := state.position + 1 } : ParseState).position ≠ .eof := by
        simp [hsecond]
      exact ⟨rfl, (Sentence.Covers.token hgt).trans (.token hnext)⟩
    apply hmove.bind
    rintro _ after ⟨hposition, hcovers⟩
    apply Ends.rangeFrom
    refine .pure ⟨fun op hop => ?_, ?_⟩
    · cases hop
      rfl
    · have hmax : max state.position (state.position + 2) = state.position + 2 := by omega
      simpa [TokenRange.indices, TokenRange.length, hposition, hmax, List.range'] using hcovers
  · intro _
    apply Ends.askIf
    · intro hop
      have hkind := ne_eof_of_contains (by simp [TokenSet.overloadableOperators]) hop
      apply (advance_covers hkind).bind
      rintro token after ⟨rfl, -, htoken⟩
      refine .pure ⟨fun op hop => ?_, ?_⟩
      · cases hop
        rfl
      · simpa [TokenRange.indices, TokenRange.length, TokenRange.single] using htoken
    · intro _
      apply (noteHere_covers [.artefact .absentToken] .refl rfl).bind
      rintro _ after ⟨-, herror⟩
      exact .pure ⟨fun op hop => absurd hop (by simp), herror⟩

theorem operatorDecl_covers (hstart : head.start = origin.position)
    (htype : input.sentence.Covers (head.modifiers.pieces ++ type.pieces) origin state)
    (hkind : input.sentence.kindAt state.position ≠ .eof) :
    Ends (operatorDecl head type) input state fun member after =>
      input.sentence.CoversMember member origin after := by
  unfold operatorDecl
  apply (advance_covers hkind).bind
  rintro keyword after₁ ⟨rfl, hnext, hkeyword⟩
  apply Ends.bind declaredOperator?_covers
  rintro op? after₂ ⟨hop, hcovers⟩
  apply (roundParameters_covers after₂).bind
  intro params after₃ hparams
  apply (memberBody_covers after₃).bind
  intro body after₄ hbody
  have hoperator : input.sentence.Covers
      (head.modifiers.pieces ++ operatorPieces type state.position op?) origin after₂ := by
    have hstep := htype.trans (hkeyword.trans hcovers)
    rw [List.append_assoc] at hstep
    cases op? with
    | none => exact hstep
    | some op =>
        have hnot : ¬op.start < state.position := by
          rw [hop op rfl]
          omega
        rw [operatorPieces, if_neg hnot]
        exact hstep
  apply memberInfo_covers hstart
  · intro info
    rfl
  · intro range
    exact (hoperator.trans hparams).trans hbody

theorem abandoned_covers (hstart : head.start = origin.position)
    (htype : input.sentence.Covers (head.modifiers.pieces ++ type.pieces) origin state) :
    Ends (abandoned head type) input state fun member after =>
      input.sentence.CoversMember member origin after := by
  unfold abandoned
  apply (noteHere_covers [.artefact .incompleteMember] htype rfl).bind
  rintro _ after ⟨-, herror⟩
  apply memberInfo_covers hstart
  · intro info
    rfl
  · intro range
    exact herror

theorem typedMember_covers (hhead : input.sentence.CoversHead head origin state) :
    Ends (typedMember head) input state fun member after =>
      input.sentence.CoversMember member origin after := by
  have hstart := hhead.start
  obtain ⟨middle, hmodifiers, hqualifier⟩ := hhead.parts
  unfold typedMember
  apply (qualifiedType_covers hqualifier).bind
  intro type after htype
  have hdecl := hmodifiers.trans htype
  apply Ends.ite
  · intro hmissing
    have hmem : .artefact .missingType ∈ type.pieces := by
      cases type with
      | byRef range qualifier inner =>
          exact List.mem_append_right _ (missing_mem_pieces hmissing)
      | _ => exact missing_mem_pieces hmissing
    apply memberInfo_covers hstart
    · intro info
      rfl
    · intro range
      exact hdecl.loud (hdecl.errors_lt .missingType (by simp [hmem]))
  · intro _
    apply Ends.kind
    intro kind hkind
    split
    · exact indexerDecl_covers hstart hdecl (by simp [hkind])
    · apply Ends.ite
      · intro _
        exact abandoned_covers hstart hdecl
      · intro _
        exact operatorDecl_covers hstart hdecl (by simp [hkind])
    · have hname : input.sentence.kindAt after.position ≠ .eof := by simp [hkind]
      apply Ends.ask
      intro next _
      split
      · exact methodDecl_covers hstart hdecl hname
      · exact methodDecl_covers hstart hdecl hname
      · exact propertyDecl_covers hstart hdecl hname
      · exact propertyDecl_covers hstart hdecl hname
      · apply Ends.ite
        · intro _
          exact methodDecl_covers hstart hdecl hname
        · intro _
          exact fieldDecl_covers hstart hdecl
    · exact abandoned_covers hstart hdecl

theorem conversionDecl_covers (hhead : input.sentence.CoversHead head origin state)
    (hnone : head.qualifier?.isSome = false)
    (hkind : input.sentence.kindAt state.position ≠ .eof)
    (hoperator : input.sentence.kindAt (state.position + 1) = .operatorKw) :
    Ends (conversionDecl head) input state fun member after =>
      input.sentence.CoversMember member origin after := by
  unfold conversionDecl
  apply (advance_covers hkind).bind
  rintro op after₁ ⟨rfl, hnext, hop⟩
  apply (advance_covers (by simp [hnext, hoperator])).bind
  rintro keyword after₂ ⟨rfl, -, hkeyword⟩
  apply (type_covers after₂).bind
  rintro type after₃ ⟨-, -, htype⟩
  apply (roundParameters_covers after₃).bind
  intro params after₄ hparams
  apply (memberBody_covers after₄).bind
  intro body after₅ hbody
  have hpieces : operatorPieces type after₁.position (some (.single state.position)) =
      .token state.position :: .token after₁.position :: type.pieces := by
    have hlt : state.position < after₁.position := by omega
    simp [operatorPieces, TokenRange.single, TokenRange.indices, TokenRange.length, hlt]
  apply memberInfo_covers hhead.start
  · intro info
    rfl
  · intro range
    rw [Member.pieces, hpieces]
    have hdecl := hop.trans (hkeyword.trans htype)
    exact (((hhead.modifiers hnone).trans hdecl).trans hparams).trans hbody

theorem constructorDecl_covers (hhead : input.sentence.CoversHead head origin state)
    (hnone : head.qualifier?.isSome = false)
    (hkind : input.sentence.kindAt state.position ≠ .eof) :
    Ends (constructorDecl head) input state fun member after =>
      input.sentence.CoversMember member origin after := by
  unfold constructorDecl
  apply (advance_covers hkind).bind
  rintro name after₁ ⟨-, -, hname⟩
  apply (roundParameters_covers after₁).bind
  intro params after₂ hparams
  apply (memberBody_covers after₂).bind
  intro body after₃ hbody
  apply memberInfo_covers hhead.start
  · intro info
    rfl
  · intro range
    exact (hhead.modifiers hnone).trans (hname.trans (hparams.trans hbody))

theorem delegateDecl_covers (hhead : input.sentence.CoversHead head origin state)
    (hnone : head.qualifier?.isSome = false)
    (hkind : input.sentence.kindAt state.position ≠ .eof) :
    Ends (delegateDecl head) input state fun member after =>
      input.sentence.CoversMember member origin after := by
  unfold delegateDecl
  apply (advance_covers hkind).bind
  rintro keyword after₁ ⟨-, -, hkeyword⟩
  apply (refQualifier?_covers.reads after₁).bind
  intro qualifier? after₂ hqualifier
  apply (qualifiedType_covers hqualifier).bind
  intro type after₃ htype
  apply (expect_covers (by decide) after₃).bind
  intro name? after₄ hname
  apply (typeParameters?_covers after₄).bind
  intro typeParams? after₅ htypeParams
  apply (roundParameters_covers after₅).bind
  intro params after₆ hparams
  apply (expect_covers (by decide) after₆).bind
  intro semicolon? after₇ hsemicolon
  have hbody := (((htype.trans hname).trans htypeParams).trans hparams).trans hsemicolon
  apply memberInfo_covers hhead.start
  · intro info
    rfl
  · intro range
    exact (hhead.modifiers hnone).trans (hkeyword.trans hbody)

theorem typeDecl_covers {members : Parse (List Member)}
    (hmembers : Reads members input memberPieces)
    (hhead : input.sentence.CoversHead head origin state)
    (hnone : head.qualifier?.isSome = false)
    (hkind : input.sentence.kindAt state.position ≠ .eof) (kind : TypeDeclKind) :
    Ends (typeDecl members head kind) input state fun member after =>
      input.sentence.CoversMember member origin after := by
  unfold typeDecl
  apply (advance_covers hkind).bind
  rintro keyword after₁ ⟨-, -, hkeyword⟩
  apply (expect_covers (by decide) after₁).bind
  intro name? after₂ hname
  apply (typeParameters?_covers after₂).bind
  intro typeParams? after₃ htypeParams
  apply (baseTypes_covers after₃).bind
  intro bases after₄ hbases
  apply (braced_covers hmembers after₄).bind
  rintro ⟨opening?, list, closing?⟩ after₅ hbody
  apply (eat_covers (by decide) after₅).bind
  intro semicolon? after₆ hsemicolon
  have htypeHead := hkeyword.trans ((hname.trans htypeParams).trans hbases)
  apply memberInfo_covers hhead.start
  · intro info
    rfl
  · intro range
    have hdecl := ((hhead.modifiers hnone).trans htypeHead).trans (hbody.trans hsemicolon)
    simpa [Member.pieces, TypeHead.pieces] using hdecl

theorem namespaceDecl_covers {members : Parse (List Member)}
    (hmembers : Reads members input memberPieces)
    (hhead : input.sentence.CoversHead head origin state)
    (hnone : head.qualifier?.isSome = false)
    (hkind : input.sentence.kindAt state.position ≠ .eof) :
    Ends (namespaceDecl members head) input state fun member after =>
      input.sentence.CoversMember member origin after := by
  unfold namespaceDecl
  apply (advance_covers hkind).bind
  rintro keyword after₁ ⟨-, -, hkeyword⟩
  apply (type_covers after₁).bind
  rintro name after₂ ⟨-, -, hname⟩
  apply (braced_covers hmembers after₂).bind
  rintro ⟨opening?, list, closing?⟩ after₃ hbody
  apply memberInfo_covers hhead.start
  · intro info
    rfl
  · intro range
    have hdecl := (hhead.modifiers hnone).trans (hkeyword.trans (hname.trans hbody))
    simpa [Member.pieces] using hdecl

theorem usingDirective_covers (hhead : input.sentence.CoversHead head origin state)
    (hnone : head.qualifier?.isSome = false)
    (hkind : input.sentence.kindAt state.position ≠ .eof) :
    Ends (usingDirective head) input state fun member after =>
      input.sentence.CoversMember member origin after := by
  unfold usingDirective
  apply (advance_covers hkind).bind
  rintro keyword after₁ ⟨-, -, hkeyword⟩
  apply (clauseType_covers after₁).bind
  intro name after₂ hname
  apply (expect_covers (by decide) after₂).bind
  intro semicolon? after₃ hsemicolon
  apply memberInfo_covers hhead.start
  · intro info
    rfl
  · intro range
    exact (hhead.modifiers hnone).trans (hkeyword.trans (hname.trans hsemicolon))

section Members

variable {nested : ParseContext → Parse (List Member)}

theorem declaredMember_covers (hnested : ∀ context, Reads (nested context) input memberPieces)
    (hhead : input.sentence.CoversHead head origin state) (context : ParseContext) :
    Ends (declaredMember nested context head) input state fun member after =>
      input.sentence.CoversMember member origin after := by
  unfold declaredMember
  apply Ends.ite
  · intro _
    exact typedMember_covers hhead
  · intro hqualifier
    have hnone : head.qualifier?.isSome = false := by simpa using hqualifier
    apply Ends.kind
    intro kind hkind
    split
    · exact typeDecl_covers (hnested _) hhead hnone (by simp [hkind]) _
    · exact typeDecl_covers (hnested _) hhead hnone (by simp [hkind]) _
    · exact typeDecl_covers (hnested _) hhead hnone (by simp [hkind]) _
    · exact delegateDecl_covers hhead hnone (by simp [hkind])
    · apply Ends.ask
      intro next hnext
      apply Ends.ite
      · intro hoperator
        exact conversionDecl_covers hhead hnone (by simp [hkind])
          (hnext.trans (by simpa using hoperator))
      · intro _
        exact typedMember_covers hhead
    · apply Ends.ask
      intro next hnext
      apply Ends.ite
      · intro hoperator
        exact conversionDecl_covers hhead hnone (by simp [hkind])
          (hnext.trans (by simpa using hoperator))
      · intro _
        exact typedMember_covers hhead
    · apply Ends.ask
      intro next _
      apply Ends.ite
      · intro _
        exact constructorDecl_covers hhead hnone (by simp [hkind])
      · intro _
        exact typedMember_covers hhead
    · exact typedMember_covers hhead

theorem member_covers (hnested : ∀ context, Reads (nested context) input memberPieces)
    (context : ParseContext) :
    Ends (member nested context) input state fun member after =>
      input.sentence.CoversMember member state after := by
  have hhead : input.sentence.CoversHead ⟨state.position, .empty, none⟩ state state :=
    ⟨rfl, state, .refl, .refl⟩
  unfold member
  apply Ends.kind
  intro kind hkind
  split
  · apply Ends.position
    exact usingDirective_covers hhead rfl (by simp [hkind])
  · apply Ends.position
    exact namespaceDecl_covers (hnested _) hhead rfl (by simp [hkind])
  · apply memberHead_covers.bind
    intro head after hhead
    exact declaredMember_covers hnested hhead context

theorem skippedMember_covers (hkind : input.sentence.kindAt state.position ≠ .eof)
    (context : ParseContext) :
    Ends (skippedMember context) input state fun member after =>
      input.sentence.CoversMember member state after := by
  unfold skippedMember
  apply Ends.position
  apply (noteHere_covers [.artefact .skippedMember] .refl ?_).bind
  · rintro _ after₁ ⟨hat, herror⟩
    apply (advance_covers (by rw [hat]; exact hkind)).bind
    rintro _ after₂ ⟨-, -, hskip⟩
    have herrors : state.errors < after₂.errors :=
      Nat.lt_of_lt_of_le (herror.errors_lt .skippedMember (List.mem_singleton_self _))
        hskip.errors_le
    apply (moveTo_covers [.artefact .skippedMember] (herror.trans hskip) herrors fun index =>
      Sentence.memberBoundaryWithin_bounds _ _ 0 index).bind
    intro _ after₃ hmember
    apply Ends.rangeFrom
    apply Ends.pure
    have hforward := hmember.forward
    refine ⟨?_, hmember⟩
    change TokenRange.mk state.position (max state.position after₃.position) = _
    rw [Nat.max_eq_right hforward]
  · split <;> rfl

theorem someMember_covers (hnested : ∀ context, Reads (nested context) input memberPieces)
    (hkind : input.sentence.kindAt state.position ≠ .eof) (context : ParseContext) :
    Ends (someMember nested context) input state fun member after =>
      state.position < after.position ∧ input.sentence.CoversMember member state after := by
  unfold someMember
  apply Ends.position
  apply Ends.ask
  intro starts _
  have hmember : Ends (if starts then member nested context else skippedMember context)
      input state fun member after => input.sentence.CoversMember member state after := by
    apply Ends.ite
    · intro _
      exact member_covers hnested context
    · intro _
      exact skippedMember_covers hkind context
  apply hmember.join
  intro member after hmember
  apply Ends.position
  have hforward := hmember.covers.forward
  apply Ends.ite
  · intro hsame
    have hat : after.position = state.position := by simpa using hsame
    have herrors : state.errors < after.errors := by
      refine Nat.lt_of_not_le fun hle => ?_
      have hspells := hmember.covers.spells (Nat.le_antisymm hle hmember.covers.errors_le)
      obtain ⟨piece, hmem, hpiece⟩ := member.exists_mem_pieces
      have hlt := hspells.lt hmem hpiece
      omega
    apply (advance_covers (by rw [hat]; exact hkind)).bind
    rintro _ last ⟨-, hnext, hskip⟩
    apply Ends.rangeFrom
    refine .pure ⟨by omega, ?_, ?_⟩
    · change TokenRange.mk state.position (max state.position last.position) = _
      rw [Nat.max_eq_right (by omega)]
    · exact (hmember.covers.trans hskip).loud (Nat.lt_of_lt_of_le herrors hskip.errors_le)
  · intro hmoved
    have hne : after.position ≠ state.position := by simpa using hmoved
    exact .pure ⟨by omega, hmember⟩

/-! ## Lists of members -/

theorem members_done (hnested : ∀ context, Reads (nested context) input memberPieces)
    (context : ParseContext) :
    Ends (many (whenever (hasMember context) (someMember nested context))) input state
      fun members after =>
        (hasMember context input after).1 = false ∧
          TokenRange.Tile (members.map (·.range)) state.position after.position ∧
          input.sentence.Covers (memberPieces members) state after := by
  apply many_done fun members after =>
    TokenRange.Tile (members.map (·.range)) state.position after.position ∧
      input.sentence.Covers (memberPieces members) state after
  · rintro members before ⟨htile, hcovers⟩
    apply whenever_ends
    · intro hhas
      have hkind : input.sentence.kindAt before.position ≠ .eof := by
        simp at hhas
        exact hhas.1
      apply (someMember_covers hnested hkind context).imp
      rintro member after ⟨hnext, hmember⟩
      refine ⟨⟨?_, ?_⟩, hnext⟩
      · rw [List.map_append, List.map_singleton, hmember.range]
        exact htile.append_singleton hnext
      · rw [memberPieces_eq] at hcovers ⊢
        simpa using hcovers.trans hmember.covers
    · intro hhas
      exact ⟨hhas, htile, hcovers⟩
  · rintro members before ⟨htile, hcovers⟩ hsize
    have hkind := Sentence.kindAt_eq_eof hsize
    refine ⟨?_, htile, hcovers⟩
    change (input.sentence.kindAt before.position != .eof && _) = false
    simp [hkind]
  · exact ⟨.nil state.position, .refl⟩

end Members

theorem membersWithin_covers (n : Nat) (context : ParseContext) :
    Reads (membersWithin n context) input memberPieces := by
  induction n generalizing context with
  | zero =>
      intro state
      exact .pure .refl
  | succ n ih =>
      intro state
      exact (members_done ih context).imp fun _ _ h => h.2.2

theorem compilationUnit_covers :
    Ends compilationUnit input state fun unit after =>
      input.sentence.kindAt after.position = .eof ∧ unit.eof = after.position ∧
        TokenRange.Tile (unit.members.map (·.range)) state.position after.position ∧
        input.sentence.Covers unit.pieces state after := by
  have hmembers : Ends (members .none) input state fun members after =>
      input.sentence.kindAt after.position = .eof ∧
        TokenRange.Tile (members.map (·.range)) state.position after.position ∧
        input.sentence.Covers (memberPieces members) state after := by
    unfold members
    apply Ends.left
    cases hleft : input.sentence.left state.position with
    | zero =>
        refine Ends.pure ⟨Sentence.kindAt_eq_eof ?_, .nil state.position, .refl⟩
        unfold Sentence.left at hleft
        omega
    | succ n =>
        apply (members_done (membersWithin_covers n) .none).imp
        rintro members after ⟨hhas, htile, hcovers⟩
        refine ⟨?_, htile, hcovers⟩
        simpa [hasMember, ask, ParseContext.isBraced, ParseContext.none] using hhas
  unfold compilationUnit
  apply hmembers.bind
  rintro members after ⟨hkind, htile, hcovers⟩
  rw [memberPieces_eq] at hcovers
  exact .position (.pure ⟨hkind, rfl, htile, hcovers⟩)

end Parse
end TolerantSyntax
