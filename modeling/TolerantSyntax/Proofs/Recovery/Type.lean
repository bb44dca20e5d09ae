import TolerantSyntax.Proofs.Builds.Type
import TolerantSyntax.Proofs.Recovery.Collects

/-!
# Types gather their entries

A `ref` that is skipped and a tuple that is too short are noted where the tree has them.  A
type takes a symbol where one starts.
-/

namespace TolerantSyntax.Parse

open Sentence (Gathers)

variable {input : Input} {state origin : ParseState} {nested : Parse TypeSyntax}

theorem refQualifier?_collects : Collects refQualifier? input fun _ => [] := by
  intro state
  unfold refQualifier?
  refine .askIf (fun hboth => ?_) fun _ => .checkIf (fun href => ?_) fun _ => .pure .refl
  · obtain ⟨hreadonly, href⟩ : input.sentence.kindAt state.position = .readonlyKw ∧
        input.sentence.kindAt (state.position + 1) = .refKw := by simpa using hboth
    refine gated_gathers (isPlain_of_kind hreadonly rfl) fun after₁ hnext hfirst => ?_
    refine (advance_gathers (isPlain_of_kind (hnext ▸ href) rfl)).bind ?_
    rintro ref after₂ ⟨-, -, href⟩
    exact .pure (hfirst.trans href)
  · exact gated_gathers (isPlain_of_kind href rfl) fun after _ href => .pure href

def CollectsTypes (nested : Parse TypeSyntax) (input : Input) : Prop :=
  Collects nested input fun type => [.node (.type type)]

theorem skippedRef_gathers {next : Option Nat → Parse ElementType}
    {post : ElementType → ParseState → Prop}
    (h : ∀ ref? after, input.sentence.Gathers
      (ref?.toList.map fun token => .fault (.skippedRef token)) state after →
      Ends (next ref?) input after post) :
    Ends (do
      let here ← position
      let skippedRef? ← eat .refKw
      if skippedRef?.isSome then note (.skippedRef here)
      next skippedRef?) input state post := by
  refine .position ((eat_ends (by decide)).bind ?_)
  rintro ref? after (⟨hyes, rfl, rfl⟩ | ⟨-, rfl, rfl⟩)
  · have hnoted := (gathers_token (isPlain_of_kind hyes rfl)).faulty
      (.skippedRef state.position) rfl hyes (Nat.le_succ _)
    exact h _ _ hnoted
  · exact h none _ .refl

theorem elementType_collects (hnested : CollectsTypes nested input) (named : Bool) :
    Collects (elementType nested named) input (·.entries) := by
  intro state
  unfold elementType
  refine .position (.ask fun atRef _ => .join (eatIf_collects rfl state) ?_)
  intro readonly? after₁ hreadonly
  refine skippedRef_gathers fun ref? after₂ href => ?_
  refine (hnested after₂).bind fun type after₃ htype => ?_
  refine .join (eatIf_collects rfl after₃) fun name? after₄ hname => .rangeFrom (.pure ?_)
  exact (hreadonly.trans (href.trans htype)).behind hname

theorem typeArguments_gathers (hnested : CollectsTypes nested input)
    (hkind : (input.sentence.kindAt state.position).isPlain = true) :
    Ends (typeArguments nested) input state fun args after =>
      input.sentence.Gathers args.entries state after := by
  unfold typeArguments
  refine (advance_gathers hkind).bind ?_
  rintro lt after₁ ⟨-, -, hlt⟩
  refine (separated_collects (elementType_collects hnested false) after₁).bind
    fun args after₂ hargs => ?_
  refine (expect_collects rfl after₂).bind fun gt? after₃ hgt => .pure ?_
  exact (hlt.trans hargs).behind hgt

theorem tupleType_gathers (hnested : CollectsTypes nested input)
    (hkind : input.sentence.kindAt state.position = .lParen) :
    Ends (tupleType nested) input state fun type after =>
      input.sentence.Gathers type.entries state after := by
  unfold tupleType
  refine .position (gated_gathers (isPlain_of_kind hkind rfl) fun after₁ _ hopening => ?_)
  refine (separated_collects (elementType_collects hnested true) after₁).bind
    fun elements after₂ helements => ?_
  refine (expect_collects rfl after₂).bind fun closing? after₃ hclosing => ?_
  have htuple := (hopening.trans helements).behind hclosing
  refine .skip (fun after => input.sentence.Gathers
    (TypeSyntax.tuple default state.position elements closing?).entries state after)
    (fun hshort => ?_) (fun hlong => ?_) fun after₄ htuple => .rangeFrom (.pure htuple)
  · rw [TypeSyntax.entries, if_pos hshort]
    exact htuple.faulty (.shortTuple state.position) rfl trivial htuple.forward
  · rw [TypeSyntax.entries, if_neg hlong]
    simpa using htuple

theorem simpleName_gathers (hnested : CollectsTypes nested input)
    (hkind : input.sentence.kindAt state.position = .identifier) :
    Ends (simpleName nested) input state fun type after =>
      input.sentence.Gathers type.entries state after := by
  unfold simpleName
  refine .position ((advance_gathers (isPlain_of_kind hkind rfl)).bind ?_)
  rintro name after₁ ⟨-, -, hname⟩
  refine .checkIf (fun hlt => ?_) fun _ => .rangeFrom (.pure hname)
  refine (typeArguments_gathers hnested (isPlain_of_kind hlt rfl)).bind
    fun args after₂ hargs => .rangeFrom (.pure ?_)
  exact hname.trans hargs

theorem segment?_gathers (hnested : CollectsTypes nested input) (start : Nat)
    {left : TypeSyntax} (hleft : input.sentence.Gathers left.entries origin state) :
    Ends (segment? nested start left) input state fun type? after =>
      input.sentence.Gathers (type?.getD left).entries origin after := by
  unfold segment?
  refine .askIf (fun hsegment => ?_) fun _ => .pure hleft
  obtain ⟨hdot, hname⟩ : input.sentence.kindAt state.position = .dot ∧
      input.sentence.kindAt (state.position + 1) = .identifier := by simpa using hsegment
  refine (advance_gathers (isPlain_of_kind hdot rfl)).bind ?_
  rintro dot after₁ ⟨-, hnext, hdot⟩
  refine (simpleName_gathers hnested (hnext ▸ hname)).bind fun right after₂ hright => ?_
  exact .rangeFrom (.pure (hleft.type.trans (hdot.trans hright.type)))

theorem growType_gathers {step : TypeSyntax → Parse (Option TypeSyntax)} {type : TypeSyntax}
    (hstep : ∀ type state, input.sentence.Gathers type.entries origin state →
      Ends (step type) input state fun grown? after =>
        input.sentence.Gathers (grown?.getD type).entries origin after)
    (htype : input.sentence.Gathers type.entries origin state) :
    Ends (grow step type) input state fun type after =>
      input.sentence.Gathers type.entries origin after := by
  refine grow_ends (fun type : TypeSyntax => fun after =>
    input.sentence.Gathers type.entries origin after) ?_ htype
  intro type before htype
  refine (hstep type before htype).imp fun grown? after h => ?_
  cases grown? <;> exact h

theorem qualifiedName_gathers (hnested : CollectsTypes nested input)
    (hkind : input.sentence.kindAt state.position = .identifier) :
    Ends (qualifiedName nested) input state fun type after =>
      input.sentence.Gathers type.entries state after := by
  unfold qualifiedName
  refine .position ((simpleName_gathers hnested hkind).bind fun first after₁ hfirst => ?_)
  exact growType_gathers (fun left before => segment?_gathers hnested _) hfirst

theorem arrayRank_gathers (hkind : input.sentence.kindAt state.position = .lBracket) :
    Ends arrayRank input state fun _ after => input.sentence.Gathers [] state after := by
  unfold arrayRank
  refine (advance_gathers (isPlain_of_kind hkind rfl)).bind ?_
  rintro opening after₁ ⟨-, -, hopening⟩
  refine (many_passes_plain (eat_collects rfl) after₁).bind fun commas after₂ hcommas => ?_
  refine (expect_collects rfl after₂).bind fun closing? after₃ hclosing => ?_
  exact .pure (hopening.trans (hcommas.trans hclosing))

theorem arrayRanks_collect : Collects (many arrayRank?) input fun _ => [] :=
  many_passes_plain fun _ => whenever_ends
    (fun hrank => arrayRank_gathers (Sentence.kindAt_of_rankAt hrank)) fun _ => .refl

theorem typeSuffix?_gathers (start : Nat) {type : TypeSyntax}
    (htype : input.sentence.Gathers type.entries origin state) :
    Ends (typeSuffix? start type) input state fun grown? after =>
      input.sentence.Gathers (grown?.getD type).entries origin after := by
  unfold typeSuffix?
  refine .kind fun kind hkind => ?_
  split
  · refine .ite (fun _ => .pure htype) fun _ => ?_
    refine (advance_gathers (isPlain_of_kind hkind rfl)).bind ?_
    rintro question after₁ ⟨-, -, hquestion⟩
    exact .rangeFrom (.pure (htype.type.behind hquestion))
  · refine (advance_gathers (isPlain_of_kind hkind rfl)).bind ?_
    rintro star after₁ ⟨-, -, hstar⟩
    exact .rangeFrom (.pure (htype.type.behind hstar))
  · refine (arrayRanks_collect state).bind fun ranks after₁ hranks => ?_
    cases ranks with
    | nil => exact .pure (htype.behind hranks)
    | cons rank ranks => exact .rangeFrom (.pure (htype.type.behind hranks))
  · exact .pure htype

theorem missingType_collects : Collects missingType input (·.entries) :=
  fun _ => .noteHere (.position (.pure (Gathers.refl.noted rfl (Nat.le_refl _))))

theorem typeStep_collects (hnested : CollectsTypes nested input) :
    Collects (typeStep nested) input (·.entries) := by
  intro state
  unfold typeStep
  refine .position (.kind fun kind hkind => ?_)
  split
  · refine (qualifiedName_gathers hnested hkind).bind fun name after₁ hname => ?_
    exact growType_gathers (fun type before => typeSuffix?_gathers _) hname
  · refine (tupleType_gathers hnested hkind).bind fun tuple after₁ htuple => ?_
    exact growType_gathers (fun type before => typeSuffix?_gathers _) htuple
  · refine .ite (fun hpredefined => ?_) fun _ => missingType_collects state
    have hplain : kind.isPlain = true := by
      refine TokenKind.isPlain_of_ne ?_ ?_ <;> rintro rfl <;> cases hpredefined
    refine (advance_gathers (isPlain_of_kind hkind hplain)).bind ?_
    rintro keyword after₁ ⟨-, -, hkeyword⟩
    refine .rangeFrom (growType_gathers (fun type before => typeSuffix?_gathers _) ?_)
    exact hkeyword

theorem typeWithin_collects (n : Nat) : Collects (typeWithin n) input (·.entries) := by
  induction n with
  | zero => exact missingType_collects
  | succ n ih => exact typeStep_collects fun state => (ih state).imp fun _ _ h => h.type

theorem type_entries : Collects type input (·.entries) :=
  fun state => .left (typeWithin_collects _ state)

theorem type_collects : CollectsTypes type input :=
  fun state => (type_entries state).imp fun _ _ h => h.type

theorem qualifiedType_collects (qualifier? : Option RefQualifier) :
    Collects (qualifiedType qualifier?) input fun type => [.node (.type type)] := by
  intro state
  unfold qualifiedType
  cases qualifier? with
  | none => exact type_collects state
  | some qualifier =>
      refine (type_entries state).bind fun inner after hinner => .rangeFrom (.pure ?_)
      unfold TypeSyntax.qualify
      split
      · exact hinner.type
      · have hbyRef : ∀ range, input.sentence.Gathers
            (TypeSyntax.byRef range qualifier inner).entries state after := fun _ => hinner.type
        exact (hbyRef _).type

theorem isPredefinedType_of_start {kind : TokenKind}
    (h : TokenSet.typeStart.contains kind = true) (hname : kind ≠ .identifier)
    (hparen : kind ≠ .lParen) : kind.isPredefinedType = true := by
  simpa [TokenSet.contains_typeStart, hname, hparen] using h

theorem type_moves (hstart : TokenSet.typeStart.contains
      (input.sentence.kindAt state.position) = true) :
    Ends type input state fun _ after => state.position < after.position := by
  have hset : TokenSet.typeStart.contains .eof = false := by
    rw [TokenSet.contains_typeStart]
    decide
  have hsize := Sentence.lt_size_of_kindAt (ne_eof_of_contains hset hstart)
  obtain ⟨n, hn⟩ := Nat.exists_eq_add_of_lt hsize
  have hleft : input.sentence.left state.position = n + 1 := by
    unfold Sentence.left
    omega
  unfold type
  refine .left ?_
  rw [hleft]
  unfold typeWithin typeStep
  refine .position (.kind fun kind hkind => ?_)
  have hnested := (@typeWithin_builds input n).gives
  split
  · refine (qualifiedName_builds hnested (by simp [hkind])).bind fun name after h => ?_
    exact (typeSuffixes_build h.1 h.2).imp fun _ _ h => h.1
  · refine (tupleType_builds hnested (by simp [hkind])).bind fun tuple after h => ?_
    exact (typeSuffixes_build h.1 h.2).imp fun _ _ h => h.1
  · rename_i hname hparen
    have hpredefined := isPredefinedType_of_start (hkind ▸ hstart) hname hparen
    rw [if_pos hpredefined]
    refine (advance_builds ?_).bind fun keyword after₁ ⟨_, hnext, hkeyword⟩ => ?_
    · exact ne_eof_of_contains hset hstart
    · refine rangeFrom_step hkeyword.forward ?_
      have htype : TypeSyntax.BuiltOn (.predefined ⟨state.position, after₁.position⟩ keyword)
          state after₁ := ⟨rfl, hkeyword⟩
      exact (typeSuffixes_build (by omega) htype).imp fun _ _ h => h.1

end TolerantSyntax.Parse
