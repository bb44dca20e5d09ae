import TolerantSyntax.Proofs.Builds.Expr
import TolerantSyntax.Proofs.Reads.Stmt

/-!
# Statements are built as they stand

Reading ahead leaves nothing behind, so a declaration that is recognized by its first
tokens is built once, from where it starts.
-/

namespace TolerantSyntax.Parse

open Layout (Builds)

variable {input : Input} {state origin : ParseState} {nested : Parse Stmt}

theorem declarator_builds : Gives declarator input (·.parts) := by
  intro state
  unfold declarator
  refine (expect_builds (by decide) state).bind fun name? after₁ hname => ?_
  refine (eat_builds (by decide) after₁).bind fun eq? after₂ heq => ?_
  have hhead := hname.trans heq
  cases eq? with
  | none => exact .pure (by simpa [Declarator.parts] using hhead)
  | some eq =>
      refine (variableValue_builds after₂).bind fun value after₃ hvalue => .pure ?_
      simpa [Declarator.parts] using hhead.trans hvalue

theorem declarators_build : Gives declarators input (·.flatMap (·.parts)) :=
  separated_builds declarator_builds

theorem eatModifier_builds {modifier : Modifier} {keyword : TokenKind} (set : ModifierSet)
    (hkeyword : keyword ≠ .eof) (hset : Builds set.parts origin state) :
    Ends (eatModifier modifier keyword set) input state fun set after =>
      Builds set.parts origin after := by
  unfold eatModifier
  refine (eat_builds hkeyword state).bind fun token? after htoken => ?_
  have hgrown := hset.trans htoken
  cases token? with
  | none => exact .pure (by simpa [Layout.tokens?] using hgrown)
  | some token =>
      exact .pure (by simpa [ModifierSet.parts, ModifierSet.push, Layout.tokens?] using hgrown)

theorem localDeclaration_builds : Gives localDeclaration input (·.parts) := by
  intro state
  unfold localDeclaration
  refine (eatModifier_builds .empty (by decide) .refl).bind fun constant after₁ hconstant => ?_
  refine refQualifier?_builds.bind fun qualifier? after₂ hqualifier => ?_
  -- A `readonly` behind the qualifier is none of the declaration, so the modifiers end
  -- where the qualifier starts.
  have hmodifiers : Ends
      (if qualifier?.isNone then eatModifier .readonlyKw .readonlyKw constant else pure constant)
      input after₂ fun modifiers after => ∃ middle,
        Builds modifiers.parts state middle ∧ RefQualifier.BuiltOn? qualifier? middle after := by
    cases qualifier? with
    | none =>
        cases hqualifier
        exact (eatModifier_builds constant (by decide) hconstant).imp fun modifiers after h =>
          ⟨after, h, rfl⟩
    | some qualifier => exact .pure ⟨after₁, hconstant, hqualifier⟩
  refine hmodifiers.join ?_
  rintro modifiers after₃ ⟨middle, hmodifiers, hqualifier⟩
  refine (qualifiedType_builds hqualifier).bind ?_
  rintro type after₄ ⟨-, htype⟩
  refine (declarators_build after₄).bind fun declarators after₅ hdeclarators => ?_
  refine (expect_builds (by decide) after₅).bind fun semicolon? after₆ hsemicolon => ?_
  exact .pure (hmodifiers.trans (htype.layout.trans (hdeclarators.trans hsemicolon)))

theorem stmt_of_range {start : Nat} {make : TokenRange → Stmt} (hstart : start = origin.position)
    (hmake : ∀ range, (make range).range = range)
    (h : ∀ range, Builds (make range).parts origin state) :
    Ends (rangeFrom start >>= fun range => pure (make range)) input state fun stmt after =>
      Builds [stmt.layout] origin after := by
  have hparts := h ⟨origin.position, state.position⟩
  refine rangeFrom_step (by rw [hstart]; exact hparts.forward) (.pure ?_)
  rw [Stmt.layout, hmake, hstart]
  exact hparts.node

theorem blockOf_builds (hnested : Gives nested input fun stmt => [stmt.layout])
    (hkind : input.sentence.kindAt state.position ≠ .eof) :
    Ends (blockOf nested) input state fun block after =>
      block.range = ⟨state.position, after.position⟩ ∧ Builds block.parts state after := by
  unfold blockOf
  refine .position ((advance_token hkind).bind fun opening after₁ hopening => ?_)
  refine (many_builds (unlessClosed_builds hnested) after₁).bind fun stmts after₂ hstmts => ?_
  refine (expect_builds (by decide) after₂).bind fun closing? after₃ hclosing => ?_
  have hparts := hopening.trans (hstmts.trans hclosing)
  refine rangeFrom_step hparts.forward (.pure ⟨rfl, ?_⟩)
  rw [Block.parts, stmtLayouts_eq, List.map_eq_flatMap]
  exact hparts

theorem returned?_builds : GivesSome returned? input fun value => [value.layout] := by
  intro state
  unfold returned?
  refine .checkIf (fun _ => .pure .refl) fun _ => ?_
  exact (expr_builds state).bind fun value after hvalue => .pure hvalue

theorem condition_builds : Gives condition input fun condition => [condition.layout] := by
  intro state
  unfold condition
  refine (expect_passes (by decide) state).bind fun _ after₁ hopening => ?_
  refine (expr_builds after₁).bind fun condition after₂ hcondition => ?_
  refine (expect_passes (by decide) after₂).bind fun _ after₃ hclosing => ?_
  exact .pure (hopening.trans (hcondition.trans hclosing))

theorem returnRef_builds {next : Option Nat → Parse Stmt} {post : Stmt → ParseState → Prop}
    (h : ∀ ref? after, Builds (returnRefParts ref?) state after →
      Ends (next ref?) input after post) :
    Ends (do
      if ← check .refKw then noteHere (.uses .refLocalsAndReturns)
      next (← eat .refKw)) input state post := by
  refine .checkIf (fun href => ?_) fun href => ?_
  · refine .noteHere ((eat_ends (by decide)).bind ?_)
    rintro ref? after (⟨-, rfl, rfl⟩ | ⟨hno, -⟩)
    · have hgate : Builds (returnRefParts (some state.position)) state _ :=
        .gate .refLocalsAndReturns
      exact h _ _ hgate
    · exact absurd href hno
  · refine (eat_ends (by decide)).bind ?_
    rintro ref? after (⟨hyes, -⟩ | ⟨-, rfl, rfl⟩)
    · exact absurd hyes href
    · exact h none _ .refl

theorem returnStmt_builds (hkind : input.sentence.kindAt state.position ≠ .eof) :
    Ends returnStmt input state fun stmt after => Builds [stmt.layout] state after := by
  unfold returnStmt
  refine .position ((advance_token hkind).bind fun keyword after₁ hkeyword => ?_)
  refine returnRef_builds fun ref? after₂ href => ?_
  refine (returned?_builds after₂).bind fun value? after₃ hvalue => ?_
  refine (expect_builds (by decide) after₃).bind fun semicolon? after₄ hsemicolon => ?_
  refine stmt_of_range rfl (fun _ => rfl) fun range => ?_
  rw [Stmt.parts, List.map_eq_flatMap]
  exact hkeyword.trans ((href.trans hvalue).trans hsemicolon)

theorem throwStmt_builds (hkind : input.sentence.kindAt state.position ≠ .eof) :
    Ends throwStmt input state fun stmt after => Builds [stmt.layout] state after := by
  unfold throwStmt
  refine .position ((advance_token hkind).bind fun keyword after₁ hkeyword => ?_)
  refine (returned?_builds after₁).bind fun value? after₂ hvalue => ?_
  refine (expect_builds (by decide) after₂).bind fun semicolon? after₃ hsemicolon => ?_
  refine stmt_of_range rfl (fun _ => rfl) fun range => ?_
  rw [Stmt.parts, List.map_eq_flatMap]
  exact hkeyword.trans (hvalue.trans hsemicolon)

theorem ifElse_builds (hnested : Gives nested input fun stmt => [stmt.layout])
    (hkind : input.sentence.kindAt state.position ≠ .eof) :
    Ends (ifElse nested) input state fun stmt after => Builds [stmt.layout] state after := by
  unfold ifElse
  refine .position ((advance_token hkind).bind fun keyword after₁ hkeyword => ?_)
  refine (condition_builds after₁).bind fun condition after₂ hcondition => ?_
  refine (hnested after₂).bind fun whenTrue after₃ htrue => ?_
  refine (eat_passes (by decide) after₃).bind fun else? after₄ helse => ?_
  have hhead := hkeyword.trans (hcondition.trans (htrue.trans helse))
  cases else? with
  | none =>
      exact .pureBind (stmt_of_range rfl (fun _ => rfl) fun range => hhead)
  | some token =>
      have hfalse : Ends (some <$> nested) input after₄ fun whenFalse? after =>
          Builds (stmtLayouts? whenFalse?) after₄ after := .map (hnested after₄)
      refine hfalse.bind fun whenFalse? after₅ hfalse => ?_
      exact stmt_of_range rfl (fun _ => rfl) fun range => hhead.trans hfalse

theorem whileLoop_builds (hnested : Gives nested input fun stmt => [stmt.layout])
    (hkind : input.sentence.kindAt state.position ≠ .eof) :
    Ends (whileLoop nested) input state fun stmt after => Builds [stmt.layout] state after := by
  unfold whileLoop
  refine .position ((advance_token hkind).bind fun keyword after₁ hkeyword => ?_)
  refine (condition_builds after₁).bind fun condition after₂ hcondition => ?_
  refine (hnested after₂).bind fun body after₃ hbody => ?_
  refine stmt_of_range rfl (fun _ => rfl) fun range => ?_
  exact hkeyword.trans (hcondition.trans hbody)

theorem declarationStmt_builds : Gives declarationStmt input fun stmt => [stmt.layout] := by
  intro state
  unfold declarationStmt
  refine .position ((localDeclaration_builds state).bind fun decl after hdecl => ?_)
  exact stmt_of_range rfl (fun _ => rfl) fun range => hdecl

theorem expressionStmt_builds : Gives expressionStmt input fun stmt => [stmt.layout] := by
  intro state
  unfold expressionStmt
  refine .position ((expr_builds state).bind fun expr after₁ hexpr => ?_)
  refine (expect_builds (by decide) after₁).bind fun semicolon? after₂ hsemicolon => ?_
  exact stmt_of_range rfl (fun _ => rfl) fun range => hexpr.trans hsemicolon

theorem skippedStmt_builds : Gives skippedStmt input fun stmt => [stmt.layout] := by
  intro state
  unfold skippedStmt
  refine .position ((noteHere_builds rfl).bind ?_)
  rintro _ after₁ ⟨-, hnoted⟩
  refine (advance_passes after₁).bind fun _ after₂ hskip => ?_
  exact stmt_of_range rfl (fun _ => rfl) fun range => hnoted.trans hskip

theorem stmtStep_builds (hnested : Gives nested input fun stmt => [stmt.layout]) :
    Gives (stmtStep nested) input fun stmt => [stmt.layout] := by
  intro state
  unfold stmtStep
  refine .kind fun kind hkind => ?_
  split
  · refine (blockOf_builds hnested (by simp [hkind])).bind ?_
    rintro block after ⟨hrange, hparts⟩
    have hblock := hparts.node
    rw [← hrange] at hblock
    refine .pure ?_
    have hstmt := hblock.node
    rw [← hrange] at hstmt
    exact hstmt
  · refine (advance_builds (by simp [hkind])).bind ?_
    rintro _ after ⟨rfl, hnext, hsemicolon⟩
    have hstmt := hsemicolon.node
    rw [hnext] at hstmt
    exact .pure hstmt
  · exact returnStmt_builds (by simp [hkind])
  · exact throwStmt_builds (by simp [hkind])
  · exact ifElse_builds hnested (by simp [hkind])
  · exact whileLoop_builds hnested (by simp [hkind])
  · exact declarationStmt_builds state
  · exact declarationStmt_builds state
  · exact declarationStmt_builds state
  · refine .ite (fun _ => skippedStmt_builds state) fun _ => startsDeclaration_ends.bind ?_
    rintro starts _ rfl
    exact .ite (fun _ => declarationStmt_builds _) fun _ => expressionStmt_builds _

theorem stmtWithin_builds (n : Nat) : Gives (stmtWithin n) input fun stmt => [stmt.layout] := by
  induction n with
  | zero => exact skippedStmt_builds
  | succ n ih => exact stmtStep_builds ih

theorem stmt_builds : Gives stmt input fun stmt => [stmt.layout] :=
  fun state => .left (stmtWithin_builds _ state)

theorem block_builds (hkind : input.sentence.kindAt state.position ≠ .eof) :
    Ends block input state fun block after => Builds [block.layout] state after := by
  refine (blockOf_builds stmt_builds hkind).imp ?_
  rintro block after ⟨hrange, hparts⟩
  rw [Block.layout, hrange]
  exact hparts.node

end TolerantSyntax.Parse
