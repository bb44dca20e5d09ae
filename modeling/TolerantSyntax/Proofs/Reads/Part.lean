import Mathlib.Data.List.ReduceOption
import TolerantSyntax.Grammar.Member
import TolerantSyntax.Proofs.Reads.Stmt

/-!
# Parts of members are read as they stand

Lists drop the entries that were noted as absent.  Behind a drop an error stands, so the
shorter list still covers the step.
-/

namespace TolerantSyntax

theorem map_some_reduceOption {α : Type} {list : List (Option α)} (h : none ∉ list) :
    list.reduceOption.map some = list := by
  induction list with
  | nil => rfl
  | cons entry rest ih =>
      cases entry with
      | none => exact absurd (List.mem_cons_self ..) h
      | some value =>
          have hrest := ih fun hmem => h (List.mem_cons_of_mem _ hmem)
          rw [List.reduceOption_cons_of_some, List.map_cons, hrest]

theorem Piece.mem_joined {parts : List (List Piece)} {part : List Piece} {piece : Piece}
    (hpart : part ∈ parts) (hpiece : piece ∈ part) : piece ∈ joined parts := by
  induction parts with
  | nil => simp at hpart
  | cons first rest ih =>
      rw [joined_cons]
      rcases List.mem_cons.mp hpart with rfl | hrest
      · exact List.mem_append_left _ hpiece
      · apply List.mem_append_right
        rw [List.mem_flatMap]
        exact ⟨part, hrest, List.mem_cons_of_mem _ hpiece⟩

theorem Sentence.Spells.joined_reduceOption {sentence : Sentence} {params : List (Option Nat)}
    {start stop : Nat}
    (h : sentence.Spells (Piece.joined (params.map Piece.required)) start stop) :
    sentence.Spells (Piece.joined (params.reduceOption.map fun param => [.token param]))
      start stop := by
  have hnone : none ∉ params := by
    intro hmem
    refine h.not_mem_artefact .absentToken (Piece.mem_joined (List.mem_map_of_mem hmem) ?_)
    exact List.mem_singleton_self _
  rw [← map_some_reduceOption hnone, List.map_map] at h
  exact h

def keptPieces {α : Type} (pieces : α → List Piece) : Option α → List Piece
  | some value => pieces value
  | none => [.artefact .absentToken]

theorem Sentence.Spells.flatMap_reduceOption {α : Type} {sentence : Sentence}
    {pieces : α → List Piece} {list : List (Option α)} {start stop : Nat}
    (h : sentence.Spells (list.flatMap (keptPieces pieces)) start stop) :
    sentence.Spells (list.reduceOption.flatMap pieces) start stop := by
  have hnone : none ∉ list := by
    intro hmem
    refine h.not_mem_artefact .absentToken (List.mem_flatMap.mpr ⟨none, hmem, ?_⟩)
    exact List.mem_singleton_self _
  rw [← map_some_reduceOption hnone, List.flatMap_map] at h
  exact h

namespace Parse

variable {input : Input} {state origin : ParseState}

theorem typeParameters?_covers :
    Reads typeParameters? input fun list? => list?.toList.flatMap (·.pieces) := by
  intro state
  unfold typeParameters?
  apply (eat_covers (by decide) state).bind
  intro lt? after₁ hlt
  cases lt? with
  | none => exact .pure hlt
  | some lt =>
      apply (separated_covers (expect_covers (by decide))).bind
      rintro params after₂ ⟨-, hparams⟩
      apply (expect_covers (by decide) after₂).bind
      intro gt? after₃ hgt
      apply Ends.pure
      have hkept := hparams.imp Sentence.Spells.joined_reduceOption
      have hlist := hlt.trans (hkept.trans hgt)
      simpa [TypeParameterList.pieces, Piece.optional] using hlist

theorem parameter_covers : Reads parameter input (·.pieces) := by
  intro state
  unfold parameter
  apply (advanceAny_covers (by simp [TokenSet.parameterModifiers]) state).bind
  intro modifier? after₁ hmodifier
  apply (type_covers after₁).bind
  rintro type after₂ ⟨-, -, htype⟩
  apply (expect_covers (by decide) after₂).bind
  intro name? after₃ hname
  have hhead := (hmodifier.trans htype).trans hname
  apply Ends.skip fun after => input.sentence.Covers
    (Piece.optional modifier? ++ type.pieces ++ Piece.required name?) state after
  · intro hnone
    apply synchronize_covers _ hhead
    cases name? with
    | none => exact hhead.errors_lt .absentToken (by simp [Piece.required])
    | some name => simp at hnone
  · intro _
    exact hhead
  · intro after₄ hhead
    apply (eat_implied (by decide) after₄).bind
    intro eq? after₅ heq
    cases eq? with
    | none =>
        apply Ends.pure
        simpa [Parameter.pieces, heq] using hhead
    | some eq =>
        apply (expr_covers after₅).bind
        intro value after₆ hvalue
        apply Ends.pure
        have hparameter := hhead.trans (heq.trans hvalue)
        simpa [Parameter.pieces] using hparameter

theorem parametersWithin_covers (n : Nat) (state : ParseState)
    (hn : input.sentence.left state.position ≤ n)
    (hkind : input.sentence.kindAt state.position ≠ .eof) :
    Ends (parametersWithin n) input state fun params after =>
      params ≠ [] ∧
        input.sentence.Covers (Piece.joined (params.map (·.pieces))) state after := by
  induction n generalizing state with
  | zero =>
      have hsize := Sentence.lt_size_of_kindAt hkind
      unfold Sentence.left at hn
      omega
  | succ n ih =>
      unfold parametersWithin
      apply (parameter_covers state).bind
      intro first after₁ hfirst
      have hforward := hfirst.forward
      apply (eat_ends (by decide)).bind
      rintro comma? after₂ (⟨hcomma, rfl, rfl⟩ | ⟨-, rfl, rfl⟩)
      · have hstep := hfirst.trans (.symbol hcomma (by decide))
        apply Ends.askIf
        · intro hstart
          have hnext : input.sentence.kindAt (after₁.position + 1) ≠ .eof :=
            ne_eof_of_contains TokenSet.parameterStart_eof hstart
          have hleft : input.sentence.left (after₁.position + 1) ≤ n := by
            unfold Sentence.left at hn ⊢
            omega
          apply (ih _ hleft hnext).bind
          rintro rest after₃ ⟨hne, hrest⟩
          refine .pure ⟨by simp, ?_⟩
          have hparams := hstep.trans hrest
          cases rest with
          | nil => exact absurd rfl hne
          | cons next rest => simpa [Piece.joined] using hparams
        · intro _
          apply (noteHere_covers _ hstep rfl).bind
          rintro _ after₃ ⟨-, herror⟩
          exact .pure ⟨by simp, herror⟩
      · exact .pure ⟨by simp, hfirst⟩

theorem parameterList_covers {opening closing : TokenKind} (hopening : opening ≠ .eof)
    (hclosing : closing ≠ .eof) :
    Reads (parameterList opening closing) input (·.pieces) := by
  intro state
  unfold parameterList
  apply (expect_covers hopening state).bind
  intro opening? after₁ hopening
  apply Ends.ask
  intro starts hstarts
  have hparams : Ends
      (if starts then (do parametersWithin (← left)) else pure []) input after₁
      fun params after =>
        input.sentence.Covers (Piece.joined (params.map (·.pieces))) after₁ after := by
    apply Ends.ite
    · intro hyes
      have hkind : input.sentence.kindAt after₁.position ≠ .eof :=
        ne_eof_of_contains TokenSet.parameterStart_eof (hstarts.trans hyes)
      apply Ends.left
      exact (parametersWithin_covers _ after₁ (Nat.le_refl _) hkind).imp fun _ _ h => h.2
    · intro _
      exact .pure .refl
  apply hparams.join
  intro params after₂ hparams
  apply (expect_covers hclosing after₂).bind
  intro closing? after₃ hclosing
  exact .pure ((hopening.trans hparams).trans hclosing)

theorem roundParameters_covers : Reads roundParameters input (·.pieces) :=
  parameterList_covers (by decide) (by decide)

theorem arrowBody_covers (hkind : input.sentence.kindAt state.position ≠ .eof) :
    Ends arrowBody input state fun body after =>
      input.sentence.Covers body.pieces state after := by
  unfold arrowBody
  apply (uses_covers .expressionBodiedMembers).bind
  rintro _ after₁ ⟨hat, huses⟩
  apply (advance_covers (by rw [hat]; exact hkind)).bind
  rintro arrow after₂ ⟨-, -, harrow⟩
  apply (expr_covers after₂).bind
  intro expr after₃ hexpr
  apply (expect_covers (by decide) after₃).bind
  intro semicolon? after₄ hsemicolon
  exact .pure (huses.trans (harrow.trans (hexpr.trans hsemicolon)))

theorem memberBody_covers : Reads memberBody input (·.pieces) := by
  intro state
  unfold memberBody
  apply Ends.kind
  intro kind hkind
  split
  · apply Ends.map
    exact block_covers (by simp [hkind])
  · apply Ends.map
    exact arrowBody_covers (by simp [hkind])
  · apply Ends.map
    exact expect_covers (by decide) state

theorem kind_ne_eof_of_keyword {kind : TokenKind} {modifier : Modifier}
    (h : Modifier.ofKeyword? kind = some modifier) : kind ≠ .eof := by
  rintro rfl
  cases h

theorem keywordModifier?_covers :
    ReadsSome keywordModifier? input fun entry => [.token entry.token] := by
  intro state
  unfold keywordModifier?
  apply Ends.kind
  intro kind hkind
  split
  · exact .pure rfl
  · rename_i modifier hmodifier
    have heof := kind_ne_eof_of_keyword hmodifier
    rw [← hkind] at heof
    apply (advance_covers heof).bind
    rintro token after ⟨-, -, htoken⟩
    exact .pure htoken

theorem entries_pieces (entries : List ModifierEntry) :
    entries.flatMap (fun entry => [Piece.token entry.token]) =
      (ModifierSet.mk entries).pieces := by
  rw [ModifierSet.pieces, List.map_eq_flatMap]

theorem accessor?_covers : Reads accessor? input (keptPieces (·.pieces)) := by
  intro state
  unfold accessor?
  apply (many_covers keywordModifier?_covers state).bind
  intro entries after₁ hentries
  simp only [entries_pieces] at hentries
  apply Ends.askIf
  · intro hkeyword
    have hkind : input.sentence.kindAt after₁.position = .identifier := by
      simp [Sentence.accessorKeywordAt] at hkeyword
      exact hkeyword.1
    apply (advance_covers (by simp [hkind])).bind
    rintro keyword after₂ ⟨-, -, hkeyword⟩
    apply (memberBody_covers after₂).bind
    intro body after₃ hbody
    exact .pure (hentries.trans (hkeyword.trans hbody))
  · intro _
    apply (noteHere_covers [.artefact .absentToken] hentries rfl).bind
    rintro _ after₂ ⟨-, herror⟩
    have herrors := herror.errors_lt .absentToken (List.mem_singleton_self _)
    apply (moveTo_covers [.artefact .absentToken] herror herrors fun index =>
      Sentence.accessorBoundaryWithin_bounds _ 0 index).bind
    intro _ after₃ hskipped
    exact .pure hskipped

theorem propertyBody_covers : Reads propertyBody input (·.pieces) := by
  intro state
  unfold propertyBody
  apply Ends.checkIf
  · intro harrow
    apply (arrowBody_covers (by simp [harrow])).bind
    intro body after hbody
    exact .pure hbody
  · intro _
    have hitems : Reads (many (unlessClosed accessor?)) input fun list =>
        list.reduceOption.flatMap (·.pieces) := by
      intro before
      apply (many_covers (unlessClosed_covers accessor?_covers) before).imp
      intro list after hlist
      exact hlist.imp Sentence.Spells.flatMap_reduceOption
    apply (braced_covers hitems state).bind
    rintro ⟨opening?, accessors, closing?⟩ after hbody
    exact .pure hbody

theorem clauseType_covers : Reads clauseType input (·.pieces) := by
  intro state
  unfold clauseType
  apply (type_covers state).bind
  rintro type after₁ ⟨-, -, htype⟩
  apply Ends.skip fun after => input.sentence.Covers type.pieces state after
  · intro hmissing
    exact synchronize_covers _ htype (htype.errors_lt .missingType (missing_mem_pieces hmissing))
  · intro _
    exact htype
  · intro after₂ htype
    exact .pure htype

theorem baseTypes_covers : Reads baseTypes input basePieces := by
  intro state
  unfold baseTypes
  apply (eat_implied (by decide) state).bind
  intro colon? after₁ hcolon
  cases colon? with
  | none =>
      subst hcolon
      exact .pure .refl
  | some colon =>
      apply (separated_covers clauseType_covers).imp
      rintro bases after₂ ⟨hne, hbases⟩
      cases bases with
      | nil => exact absurd rfl hne
      | cons base bases => exact hcolon.trans hbases

end Parse
end TolerantSyntax
