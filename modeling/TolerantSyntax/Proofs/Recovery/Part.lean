import TolerantSyntax.Proofs.Builds.Part
import TolerantSyntax.Proofs.Recovery.Stmt

/-!
# Parts of members gather their entries

Behind a parameter without a name the symbols up to the next one of its set are skipped, and
the set has no `}`.  What is skipped in a clause or among accessors stops in front of a `}`
that it has not opened.
-/

namespace TolerantSyntax

open Sentence (Gathers)

namespace Sentence.Gathers

variable {sentence : Sentence} {entries : List Entry} {before after : ParseState}

theorem clause (h : sentence.Gathers entries before after) :
    sentence.Gathers entries before
      { after with
        position := sentence.seek TokenSet.directiveRecovery.contains after.position } := by
  have hbounds := sentence.seekWithin_bounds TokenSet.directiveRecovery.contains
    (sentence.left after.position) after.position
  refine h.skip hbounds.1 ?_ fun _ => seek_closesOwn (by decide) _
  simp only [left, seek] at hbounds ⊢
  omega

theorem accessors (h : sentence.Gathers entries before after) :
    sentence.Gathers entries before
      { after with position := sentence.accessorBoundary after.position } := by
  have hbounds := sentence.accessorBoundaryWithin_bounds (sentence.left after.position) 0
    after.position
  refine h.skip hbounds.1 ?_ fun _ => accessorBoundaryWithin_closesWithin _ 0 _
  simp only [left, accessorBoundary] at hbounds ⊢
  omega

end Sentence.Gathers

theorem Modifier.isPlain_of_ofKeyword? {kind : TokenKind} {modifier : Modifier}
    (h : Modifier.ofKeyword? kind = some modifier) : kind.isPlain = true := by
  refine TokenKind.isPlain_of_ne ?_ ?_ <;> rintro rfl <;> cases h

namespace Parse

variable {input : Input} {state origin : ParseState}

theorem typeParameters?_collects : Collects typeParameters? input fun _ => [] := by
  intro state
  unfold typeParameters?
  refine (eat_collects rfl state).bind fun lt? after₁ hlt => ?_
  cases lt? with
  | none => exact .pure hlt
  | some lt =>
      refine (separated_collects (expect_collects rfl) after₁).bind fun params after₂ hparams => ?_
      refine (expect_collects rfl after₂).bind fun gt? after₃ hgt => .pure ?_
      have hnone : params.flatMap (fun _ => ([] : List Entry)) = [] :=
        List.flatMap_eq_nil_iff.mpr fun _ _ => rfl
      have hlist : input.sentence.Gathers [] after₁ after₂ := hnone ▸ hparams
      exact hlt.trans (hlist.trans hgt)

theorem parameter_collects : Collects parameter input (·.entries) := by
  intro state
  unfold parameter
  refine (advanceAny_collects (by simp [TokenSet.parameterModifiers])
    (by simp [TokenSet.parameterModifiers]) state).bind fun modifier? after₁ hmodifier => ?_
  refine ((type_builds after₁).and (type_collects after₁)).bind ?_
  rintro type after₂ ⟨⟨-, hbuilt⟩, htype⟩
  have hstop : type.range.stop = after₂.position := by rw [hbuilt.range]
  have hname : Ends (expect .identifier) input after₂ fun name? after =>
      input.sentence.Gathers [] after₂ after ∧
        (name?.isNone = true → after.position = after₂.position) := by
    refine (expect_collects rfl after₂).and ((expect_ends (by decide)).imp ?_)
    rintro name? after (⟨-, rfl, -⟩ | ⟨-, -, rfl⟩)
    · intro hnone
      cases hnone
    · exact fun _ => rfl
  refine hname.bind ?_
  rintro name? after₃ ⟨hname, hat⟩
  have hhead := (hmodifier.trans htype).behind hname
  refine .skip (fun after => input.sentence.Gathers (.node (.type type) ::
      if name?.isNone then [.fault (.noName type.range.stop)] else []) state after)
    (fun hnone => ?_) (fun hsome => ?_) fun after₄ hhead => ?_
  · rw [if_pos hnone, hstop, ← hat hnone]
    exact hhead.nameless
  · rw [if_neg hsome]
    exact hhead
  · refine (eat_collects rfl after₄).bind fun eq? after₅ heq => ?_
    cases eq? with
    | none => exact .pure (by simpa [Parameter.entries] using hhead.behind heq)
    | some eq =>
        refine (expr_collects after₅).bind fun value after₆ hvalue => .pure ?_
        simpa [Parameter.entries] using hhead.trans (heq.trans hvalue)

theorem parametersWithin_collects (n : Nat) :
    Collects (parametersWithin n) input (·.flatMap (·.entries)) := by
  induction n with
  | zero => exact fun state => .pure .refl
  | succ n ih =>
      intro state
      unfold parametersWithin
      refine (parameter_collects state).bind fun first after₁ hfirst => ?_
      refine (eat_collects rfl after₁).bind fun comma? after₂ hcomma => ?_
      have hfirst : input.sentence.Gathers ([first].flatMap (·.entries)) state after₂ := by
        simpa using hfirst.behind hcomma
      cases comma? with
      | none => exact .pure hfirst
      | some comma =>
          refine .ask fun starts _ => .ite (fun _ => ?_) fun _ => .noteHere (.pure ?_)
          · refine (ih after₂).bind fun rest after₃ hrest => .pure ?_
            simpa using hfirst.trans hrest
          · exact hfirst.noted rfl (Nat.le_refl _)

theorem parameterList_collects {opening closing : TokenKind} (hopening : opening.isPlain = true)
    (hclosing : closing.isPlain = true) :
    Collects (parameterList opening closing) input (·.entries) := by
  have hparams : ∀ starts : Bool,
      Collects (if starts then (do parametersWithin (← left)) else pure []) input
        (·.flatMap (·.entries)) := fun starts state =>
    .ite (fun _ => .left (parametersWithin_collects _ state)) fun _ => .pure .refl
  intro state
  unfold parameterList
  refine (expect_collects hopening state).bind fun opening? after₁ hopening => ?_
  refine .ask fun starts _ => (hparams starts after₁).join fun params after₂ hparams => ?_
  refine (expect_collects hclosing after₂).bind fun closing? after₃ hclosing => .pure ?_
  exact (hopening.trans hparams).behind hclosing

theorem roundParameters_collects : Collects roundParameters input (·.entries) :=
  parameterList_collects rfl rfl

theorem arrowBody_gathers (hkind : input.sentence.kindAt state.position = .arrow) :
    Ends arrowBody input state fun body after =>
      input.sentence.Gathers [.node (.expr body.expr)] state after := by
  unfold arrowBody
  refine gated_gathers (isPlain_of_kind hkind rfl) fun after₁ _ harrow => ?_
  refine (expr_collects after₁).bind fun expr after₂ hexpr => ?_
  refine (expect_collects rfl after₂).bind fun semicolon? after₃ hsemicolon => .pure ?_
  exact harrow.trans (hexpr.behind hsemicolon)

theorem memberBody_collects : Collects memberBody input (·.entries) := by
  intro state
  unfold memberBody
  refine .kind fun kind hkind => ?_
  split
  · exact .map (block_gathers hkind)
  · exact .map (arrowBody_gathers hkind)
  · exact .map (expect_collects rfl state)

theorem keywordModifier?_collects : Collects keywordModifier? input fun _ => [] := by
  intro state
  unfold keywordModifier?
  refine .kind fun kind hkind => ?_
  split
  · exact .pure .refl
  · rename_i modifier hmodifier
    refine (advance_gathers (isPlain_of_kind hkind (Modifier.isPlain_of_ofKeyword? hmodifier))).bind
      ?_
    rintro token after ⟨-, -, htoken⟩
    exact .pure htoken

theorem accessor?_collects : CollectsSome accessor? input (·.body.entries) := by
  intro state
  unfold accessor?
  refine (many_passes_plain keywordModifier?_collects state).bind fun entries after₁ hentries => ?_
  refine .askIf (fun hkeyword => ?_) fun _ => .noteHere ?_
  · have hkind : input.sentence.kindAt after₁.position = .identifier := by
      simp [Sentence.accessorKeywordAt] at hkeyword
      exact hkeyword.1
    refine (advance_gathers (isPlain_of_kind hkind rfl)).bind ?_
    rintro keyword after₂ ⟨-, -, hkeyword⟩
    refine (memberBody_collects after₂).bind fun body after₃ hbody => .pure ?_
    simpa using hentries.trans (hkeyword.trans hbody)
  · have hmove : Ends (moveTo Sentence.accessorBoundary) input
        { after₁ with findings := .accessorExpected after₁.position :: after₁.findings }
        fun _ after => input.sentence.Gathers [] state after :=
    (hentries.noted rfl (Nat.le_refl _)).accessors
    exact hmove.bind fun _ after₂ hskipped => .pure hskipped

theorem propertyBody_collects : Collects propertyBody input (·.entries) := by
  have hitems : Collects (many (unlessClosed accessor?)) input
      (·.reduceOption.flatMap (·.body.entries)) := by
    have hitem : CollectsSome (unlessClosed accessor?) input
        (·.toList.flatMap (·.body.entries)) :=
      whenever_collects fun state _ => accessor?_collects state
    simpa only [flatMap_toList_flatMap] using many_collects hitem
  intro state
  unfold propertyBody
  refine .checkIf (fun harrow => ?_) fun _ => ?_
  · exact (arrowBody_gathers harrow).bind fun body after hbody => .pure hbody
  · refine (braced_gathers (fun _ _ => True) rfl fun _ =>
      (hitems _).imp fun _ _ h => ⟨h, trivial⟩).bind ?_
    rintro ⟨opening?, accessors, closing?⟩ after ⟨hbody, -⟩
    exact .pure hbody

theorem clauseType_collects : CollectsTypes clauseType input := by
  intro state
  unfold clauseType
  refine (type_collects state).bind fun type after₁ htype => ?_
  exact .skip (fun after => input.sentence.Gathers [.node (.type type)] state after)
    (fun _ => htype.clause) (fun _ => htype) fun after₂ htype => .pure htype

theorem baseTypes_collect : Collects baseTypes input fun bases => (bases.map .type).map .node := by
  intro state
  unfold baseTypes
  refine (eat_collects rfl state).bind fun colon? after₁ hcolon => ?_
  cases colon? with
  | none => exact .pure hcolon
  | some colon =>
      exact (separated_nodes clauseType_collects after₁).imp fun bases after₂ hbases =>
        hcolon.trans hbases

end Parse
end TolerantSyntax
