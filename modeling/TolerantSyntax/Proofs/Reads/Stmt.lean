import TolerantSyntax.Grammar.Stmt
import TolerantSyntax.Proofs.Reads.Expr

/-!
# Statements are read as they stand
-/

namespace TolerantSyntax.Parse

variable {input : Input} {state origin : ParseState} {nested : Parse Stmt}

theorem declarator_covers : Reads declarator input (·.pieces) := by
  intro state
  unfold declarator
  apply (expect_covers (by decide) state).bind
  intro name? after₁ hname
  apply (eat_covers (by decide) after₁).bind
  intro eq? after₂ heq
  cases eq? with
  | none =>
      apply Ends.pure
      have hdeclarator := hname.trans heq
      simpa [Declarator.pieces] using hdeclarator
  | some eq =>
      apply (variableValue_covers after₂).bind
      intro value after₃ hvalue
      apply Ends.pure
      have hdeclarator := (hname.trans heq).trans hvalue
      simpa [Declarator.pieces] using hdeclarator

theorem declarators_covers :
    Reads declarators input fun list => Piece.joined (list.map (·.pieces)) := by
  intro state
  apply (separated_covers declarator_covers).imp
  intro list after h
  exact h.2

theorem push_pieces (set : ModifierSet) (modifier : Modifier) (token : Nat) :
    (set.push modifier token).pieces = set.pieces ++ [.token token] := by
  simp [ModifierSet.pieces, ModifierSet.push]

theorem eatModifier_covers {modifier : Modifier} {keyword : TokenKind} (set : ModifierSet)
    (hkeyword : keyword ≠ .eof) (hset : input.sentence.Covers set.pieces origin state) :
    Ends (eatModifier modifier keyword set) input state fun set after =>
      input.sentence.Covers set.pieces origin after := by
  unfold eatModifier
  apply (eat_covers hkeyword state).bind
  intro token? after htoken
  have hgrown := hset.trans htoken
  cases token? with
  | none => exact .pure (by simpa [Piece.optional] using hgrown)
  | some token =>
      apply Ends.pure
      rw [push_pieces]
      exact hgrown

theorem localDeclaration_covers : Reads localDeclaration input (·.pieces) := by
  intro state
  unfold localDeclaration
  apply (eatModifier_covers .empty (by decide) .refl).bind
  intro constant after₁ hconstant
  apply (refQualifier?_covers after₁).bind
  intro qualifier? after₂ hqualifier
  -- A `readonly` behind the qualifier is none of the declaration, so the modifiers end
  -- where the qualifier starts.
  have hmodifiers : Ends
      (if qualifier?.isNone then eatModifier .readonlyKw .readonlyKw constant else pure constant)
      input after₂ fun modifiers after => ∃ middle,
        input.sentence.Covers modifiers.pieces state middle ∧
          input.sentence.Covers (qualifier?.toList.flatMap (·.pieces)) middle after := by
    cases qualifier? with
    | none =>
        subst hqualifier
        apply (eatModifier_covers constant (by decide) hconstant).imp
        intro modifiers after h
        exact ⟨after, h, .refl⟩
    | some qualifier =>
        refine Ends.pure ⟨after₁, hconstant, ?_⟩
        simpa using hqualifier
  apply hmodifiers.join
  rintro modifiers after₃ ⟨middle, hmodifiers, hqualifier⟩
  apply (qualifiedType_covers hqualifier).bind
  intro type after₄ htype
  apply (declarators_covers after₄).bind
  intro declarators after₅ hdeclarators
  apply (expect_covers (by decide) after₅).bind
  intro semicolon? after₆ hsemicolon
  exact .pure (((hmodifiers.trans htype).trans hdeclarators).trans hsemicolon)

theorem startsDeclaration_ends :
    Ends startsDeclaration input state fun _ after => after = state := by
  unfold startsDeclaration
  apply Ends.ask
  intro atType _
  apply Ends.ite
  · intro _
    exact lookAhead_ends fun _ => rfl
  · intro _
    exact .pure rfl

theorem blockOf_covers (hnested : Reads nested input (·.pieces))
    (hkind : input.sentence.kindAt state.position ≠ .eof) :
    Ends (blockOf nested) input state fun block after =>
      input.sentence.Covers block.pieces state after := by
  unfold blockOf
  apply Ends.position
  apply (advance_covers hkind).bind
  rintro opening after₁ ⟨-, -, hopening⟩
  apply (many_covers (unlessClosed_covers hnested) after₁).bind
  intro stmts after₂ hstmts
  apply (expect_covers (by decide) after₂).bind
  intro closing? after₃ hclosing
  apply Ends.rangeFrom
  apply Ends.pure
  rw [Block.pieces, stmtPieces_eq]
  exact hopening.trans (hstmts.trans hclosing)

theorem returned?_covers :
    Reads returned? input fun value? => value?.toList.flatMap (·.pieces) := by
  intro state
  unfold returned?
  apply Ends.checkIf
  · intro _
    exact .pure .refl
  · intro _
    apply (expr_covers state).bind
    intro value after hvalue
    apply Ends.pure
    simpa using hvalue

theorem condition_covers :
    Reads condition input fun condition =>
      .symbol .lParen :: (condition.pieces ++ [.symbol .rParen]) := by
  intro state
  unfold condition
  apply (expect_implied (by decide) state).bind
  intro _ after₁ hopening
  apply (expr_covers after₁).bind
  intro condition after₂ hcondition
  apply (expect_implied (by decide) after₂).bind
  intro _ after₃ hclosing
  exact .pure (hopening.trans (hcondition.trans hclosing))

theorem returnStmt_covers (hkind : input.sentence.kindAt state.position ≠ .eof) :
    Ends returnStmt input state fun stmt after =>
      input.sentence.Covers stmt.pieces state after := by
  unfold returnStmt
  apply Ends.position
  apply (advance_covers hkind).bind
  rintro keyword after₁ ⟨-, -, hkeyword⟩
  apply Ends.ask
  intro atRef _
  apply Ends.skip fun after => input.sentence.Covers [] after₁ after
  · intro _
    exact (uses_covers .refLocalsAndReturns).imp fun _ _ h => h.2
  · intro _
    exact .refl
  · intro after₂ huses
    apply (eat_covers (by decide) after₂).bind
    intro ref? after₃ href
    apply (returned?_covers after₃).bind
    intro value? after₄ hvalue
    apply (expect_covers (by decide) after₄).bind
    intro semicolon? after₅ hsemicolon
    apply Ends.rangeFrom
    apply Ends.pure
    exact hkeyword.trans (huses.trans ((href.trans hvalue).trans hsemicolon))

theorem throwStmt_covers (hkind : input.sentence.kindAt state.position ≠ .eof) :
    Ends throwStmt input state fun stmt after =>
      input.sentence.Covers stmt.pieces state after := by
  unfold throwStmt
  apply Ends.position
  apply (advance_covers hkind).bind
  rintro keyword after₁ ⟨-, -, hkeyword⟩
  apply (returned?_covers after₁).bind
  intro value? after₂ hvalue
  apply (expect_covers (by decide) after₂).bind
  intro semicolon? after₃ hsemicolon
  apply Ends.rangeFrom
  apply Ends.pure
  exact hkeyword.trans (hvalue.trans hsemicolon)

theorem ifElse_covers (hnested : Reads nested input (·.pieces))
    (hkind : input.sentence.kindAt state.position ≠ .eof) :
    Ends (ifElse nested) input state fun stmt after =>
      input.sentence.Covers stmt.pieces state after := by
  unfold ifElse
  apply Ends.position
  apply (advance_covers hkind).bind
  rintro keyword after₁ ⟨-, -, hkeyword⟩
  apply (condition_covers after₁).bind
  intro condition after₂ hcondition
  apply (hnested after₂).bind
  intro whenTrue after₃ htrue
  have hhead := hkeyword.trans (hcondition.trans htrue)
  apply (eat_implied (by decide) after₃).bind
  intro else? after₄ helse
  cases else? with
  | none =>
      subst helse
      apply Ends.pureBind
      apply Ends.rangeFrom
      apply Ends.pure
      simpa [Stmt.pieces, elsePieces] using hhead
  | some token =>
      have hfalse : Ends (some <$> nested) input after₄ fun whenFalse? after =>
          input.sentence.Covers (elsePieces whenFalse?) after₃ after := by
        apply Ends.map
        apply (hnested after₄).imp
        intro whenFalse after hfalse
        exact helse.trans hfalse
      apply hfalse.bind
      intro whenFalse? after₅ hfalse
      apply Ends.rangeFrom
      apply Ends.pure
      have hif := hhead.trans hfalse
      simpa [Stmt.pieces] using hif

theorem whileLoop_covers (hnested : Reads nested input (·.pieces))
    (hkind : input.sentence.kindAt state.position ≠ .eof) :
    Ends (whileLoop nested) input state fun stmt after =>
      input.sentence.Covers stmt.pieces state after := by
  unfold whileLoop
  apply Ends.position
  apply (advance_covers hkind).bind
  rintro keyword after₁ ⟨-, -, hkeyword⟩
  apply (condition_covers after₁).bind
  intro condition after₂ hcondition
  apply (hnested after₂).bind
  intro body after₃ hbody
  apply Ends.rangeFrom
  apply Ends.pure
  have hloop := hkeyword.trans (hcondition.trans hbody)
  simpa [Stmt.pieces] using hloop

theorem declarationStmt_covers : Reads declarationStmt input (·.pieces) := by
  intro state
  unfold declarationStmt
  apply Ends.position
  apply (localDeclaration_covers state).bind
  intro decl after hdecl
  exact .rangeFrom (.pure hdecl)

theorem expressionStmt_covers : Reads expressionStmt input (·.pieces) := by
  intro state
  unfold expressionStmt
  apply Ends.position
  apply (expr_covers state).bind
  intro expr after₁ hexpr
  apply (expect_covers (by decide) after₁).bind
  intro semicolon? after₂ hsemicolon
  exact .rangeFrom (.pure (hexpr.trans hsemicolon))

theorem skippedStmt_covers : Reads skippedStmt input (·.pieces) := by
  intro state
  unfold skippedStmt
  apply Ends.position
  apply (noteHere_covers [.artefact .skippedStmt] .refl rfl).bind
  rintro _ after₁ ⟨hat, herror⟩
  by_cases heof : input.sentence.kindAt after₁.position = .eof
  · apply (Ends.advance_at_end heof).bind
    rintro _ _ rfl
    exact .rangeFrom (.pure herror)
  · apply (advance_covers heof).bind
    rintro _ after₂ ⟨-, -, hskip⟩
    apply Ends.rangeFrom
    apply Ends.pure
    have herrors := herror.errors_lt .skippedStmt (List.mem_singleton_self _)
    exact (herror.trans hskip).loud (Nat.lt_of_lt_of_le herrors hskip.errors_le)

theorem stmtStep_covers (hnested : Reads nested input (·.pieces)) :
    Reads (stmtStep nested) input (·.pieces) := by
  intro state
  unfold stmtStep
  apply Ends.kind
  intro kind hkind
  split
  · apply (blockOf_covers hnested (by simp [hkind])).bind
    intro block after hblock
    exact .pure hblock
  · apply (advance_covers (by simp [hkind])).bind
    rintro semicolon after ⟨-, -, hsemicolon⟩
    exact .pure hsemicolon
  · exact returnStmt_covers (by simp [hkind])
  · exact throwStmt_covers (by simp [hkind])
  · exact ifElse_covers hnested (by simp [hkind])
  · exact whileLoop_covers hnested (by simp [hkind])
  · exact declarationStmt_covers state
  · exact declarationStmt_covers state
  · exact declarationStmt_covers state
  · apply Ends.ite
    · intro _
      exact skippedStmt_covers state
    · intro _
      apply startsDeclaration_ends.bind
      rintro starts _ rfl
      apply Ends.ite
      · intro _
        exact declarationStmt_covers _
      · intro _
        exact expressionStmt_covers _

theorem stmtWithin_covers (n : Nat) : Reads (stmtWithin n) input (·.pieces) := by
  induction n with
  | zero => exact skippedStmt_covers
  | succ n ih => exact stmtStep_covers ih

theorem stmt_covers : Reads stmt input (·.pieces) := by
  intro state
  unfold stmt
  apply Ends.left
  exact stmtWithin_covers _ state

theorem block_covers (hkind : input.sentence.kindAt state.position ≠ .eof) :
    Ends block input state fun block after =>
      input.sentence.Covers block.pieces state after := blockOf_covers stmt_covers hkind

end TolerantSyntax.Parse
