import TolerantSyntax.Proofs.Builds.Stmt
import TolerantSyntax.Proofs.Layout.Reveals
import TolerantSyntax.Proofs.Reads.Part

/-!
# Parts of members are built as they stand

Entries of a list that are absent have no part.  An accessor that is given up leaves its
modifiers without a place in the tree.
-/

namespace TolerantSyntax

open Layout (Builds)

namespace ModifierSet

theorem usesOf_parts (set : ModifierSet) : Layout.usesOf set.parts = [] := by
  unfold parts
  induction set.entries with
  | nil => rfl
  | cons entry rest ih => exact ih

end ModifierSet

theorem flatMap_tokens? (tokens : List (Option Nat)) :
    tokens.flatMap Layout.tokens? = tokens.reduceOption.map .token := by
  induction tokens with
  | nil => rfl
  | cons token? rest ih => cases token? <;> simp [Layout.tokens?, ih]

theorem flatMap_toList_flatMap {α β : Type} (list : List (Option α)) (parts : α → List β) :
    list.flatMap (·.toList.flatMap parts) = list.reduceOption.flatMap parts := by
  induction list with
  | nil => rfl
  | cons entry rest ih => cases entry <;> simp [ih]

namespace Parse

variable {input : Input} {state origin : ParseState}

theorem typeParameters?_builds : GivesSome typeParameters? input (·.parts) := by
  intro state
  unfold typeParameters?
  refine (eat_builds (by decide) state).bind fun lt? after₁ hlt => ?_
  cases lt? with
  | none => exact .pure hlt
  | some lt =>
      refine (separated_builds (expect_builds (by decide)) after₁).bind
        fun params after₂ hparams => ?_
      refine (expect_builds (by decide) after₂).bind fun gt? after₃ hgt => .pure ?_
      simp only [flatMap_tokens?] at hparams
      simpa [TypeParameterList.parts, Layout.tokens?] using hlt.trans (hparams.trans hgt)

theorem parameter_builds : Gives parameter input (·.parts) := by
  intro state
  unfold parameter
  refine (advanceAny_builds (by simp [TokenSet.parameterModifiers]) state).bind
    fun modifier? after₁ hmodifier => ?_
  refine (type_gives after₁).bind fun type after₂ htype => ?_
  refine (expect_builds (by decide) after₂).bind fun name? after₃ hname => ?_
  have hhead := hmodifier.trans (htype.trans hname)
  refine .skip (fun after => Builds (Layout.tokens? modifier? ++
      type.layout :: Layout.tokens? name?) state after)
    (fun _ => synchronize_builds hhead) (fun _ => hhead) fun after₄ hhead => ?_
  refine (eat_passes (by decide) after₄).bind fun eq? after₅ heq => ?_
  have hhead := hhead.trans heq
  cases eq? with
  | none => exact .pure (by simpa [Parameter.parts] using hhead)
  | some eq =>
      refine (expr_builds after₅).bind fun value after₆ hvalue => .pure ?_
      simpa [Parameter.parts] using hhead.trans hvalue

theorem parametersWithin_builds (n : Nat) :
    Gives (parametersWithin n) input (·.flatMap (·.parts)) := by
  induction n with
  | zero => exact fun state => .pure .refl
  | succ n ih =>
      intro state
      unfold parametersWithin
      refine (parameter_builds state).bind fun first after₁ hfirst => ?_
      refine (eat_passes (by decide) after₁).bind fun comma? after₂ hcomma => ?_
      have hfirst : Builds ([first].flatMap (·.parts)) state after₂ := by
        simpa using hfirst.trans hcomma
      cases comma? with
      | none => exact .pure hfirst
      | some comma =>
          refine .ask fun starts _ => .ite (fun _ => ?_) fun _ => ?_
          · refine (ih after₂).bind fun rest after₃ hrest => .pure ?_
            simpa using hfirst.trans hrest
          · exact .noteHere (.pure (hfirst.noted rfl))

theorem parameterList_builds {opening closing : TokenKind} (hopening : opening ≠ .eof)
    (hclosing : closing ≠ .eof) : Gives (parameterList opening closing) input (·.parts) := by
  have hparams : ∀ starts : Bool,
      Gives (if starts then (do parametersWithin (← left)) else pure []) input
        (·.flatMap (·.parts)) := fun starts state =>
    .ite (fun _ => .left (parametersWithin_builds _ state)) fun _ => .pure .refl
  intro state
  unfold parameterList
  refine (expect_builds hopening state).bind fun opening? after₁ hopening => ?_
  refine .ask fun starts _ => (hparams starts after₁).join fun params after₂ hparams => ?_
  refine (expect_builds hclosing after₂).bind fun closing? after₃ hclosing => ?_
  exact .pure ((hopening.trans hparams).trans hclosing)

theorem roundParameters_builds : Gives roundParameters input (·.parts) :=
  parameterList_builds (by decide) (by decide)

theorem arrowBody_builds (hkind : input.sentence.kindAt state.position ≠ .eof) :
    Ends arrowBody input state fun body after => Builds body.parts state after := by
  unfold arrowBody
  refine gated hkind fun after₁ _ harrow => ?_
  refine (expr_builds after₁).bind fun expr after₂ hexpr => ?_
  refine (expect_builds (by decide) after₂).bind fun semicolon? after₃ hsemicolon => ?_
  exact .pure (harrow.trans (hexpr.trans hsemicolon))

theorem memberBody_builds : Gives memberBody input (·.parts) := by
  intro state
  unfold memberBody
  refine .kind fun kind hkind => ?_
  split
  · exact .map (block_builds (by simp [hkind]))
  · exact .map (arrowBody_builds (by simp [hkind]))
  · exact .map (expect_builds (by decide) state)

theorem keywordModifier?_builds :
    GivesSome keywordModifier? input fun entry => [.token entry.token] := by
  intro state
  unfold keywordModifier?
  refine .kind fun kind hkind => ?_
  split
  · exact .pure .refl
  · rename_i modifier hmodifier
    have hkeyword : input.sentence.kindAt state.position ≠ .eof := by
      rw [hkind]
      exact kind_ne_eof_of_keyword hmodifier
    refine (advance_token hkeyword).bind fun token after htoken => ?_
    exact .pure htoken

theorem modifiers_build {item : Parse (Option ModifierEntry)}
    (hitem : GivesSome item input fun entry => [.token entry.token]) :
    Gives (many item) input fun entries => (ModifierSet.mk entries).parts := by
  simpa only [ModifierSet.parts, List.map_eq_flatMap] using many_builds hitem

theorem accessor?_builds : GivesSome accessor? input (·.parts) := by
  intro state
  unfold accessor?
  refine (modifiers_build keywordModifier?_builds state).bind fun entries after₁ hentries => ?_
  refine .askIf (fun hkeyword => ?_) fun _ => ?_
  · have hkind : input.sentence.kindAt after₁.position = .identifier := by
      simp [Sentence.accessorKeywordAt] at hkeyword
      exact hkeyword.1
    refine (advance_token (by simp [hkind])).bind fun keyword after₂ hkeyword => ?_
    refine (memberBody_builds after₂).bind fun body after₃ hbody => .pure ?_
    simpa [Accessor.parts] using hentries.trans (hkeyword.trans hbody)
  · have hdropped := hentries.drop (ModifierSet.exprsOf_parts _) (ModifierSet.usesOf_parts _)
    refine .noteHere ((moveTo_builds (hdropped.noted rfl) fun index => ?_).bind
      fun _ after₂ hskipped => .pure hskipped)
    exact (Sentence.accessorBoundaryWithin_bounds _ 0 index).1

theorem propertyBody_builds : Gives propertyBody input (·.parts) := by
  have hitems : Gives (many (unlessClosed accessor?)) input
      (·.reduceOption.flatMap (·.parts)) := by
    simpa only [flatMap_toList_flatMap] using many_builds (unlessClosed_builds accessor?_builds)
  intro state
  unfold propertyBody
  refine .checkIf (fun harrow => ?_) fun _ => ?_
  · exact (arrowBody_builds (by simp [harrow])).bind fun body after hbody => .pure hbody
  · refine (braced_builds rfl hitems state).bind ?_
    rintro ⟨opening?, accessors, closing?⟩ after hbody
    exact .pure hbody

theorem clauseType_builds : Gives clauseType input fun type => [type.layout] := by
  intro state
  unfold clauseType
  refine (type_gives state).bind fun type after₁ htype => ?_
  exact .skip (fun after => Builds [type.layout] state after)
    (fun _ => synchronize_builds htype) (fun _ => htype) fun after₂ htype => .pure htype

theorem baseTypes_build : Gives baseTypes input (·.map (·.layout)) := by
  intro state
  unfold baseTypes
  refine (eat_passes (by decide) state).bind fun colon? after₁ hcolon => ?_
  cases colon? with
  | none => exact .pure hcolon
  | some colon =>
      refine (separated_builds clauseType_builds after₁).imp fun bases after₂ hbases => ?_
      simpa only [List.map_eq_flatMap, List.nil_append] using hcolon.trans hbases

end Parse
end TolerantSyntax
