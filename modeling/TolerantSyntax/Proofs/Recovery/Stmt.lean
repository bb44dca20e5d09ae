import TolerantSyntax.Proofs.Builds.Stmt
import TolerantSyntax.Proofs.Recovery.Expr

/-!
# Statements gather their entries

The range of a statement is the step that reads it, and the step takes a symbol unless it is
at the end.  So the statements of a block tile what stands between its braces, and only the
end keeps a block from its `}`.
-/

namespace TolerantSyntax

open Sentence (Gathers)

/-- A body whose ranges go on up to a `}` or to the end. -/
theorem Body.ownsTokens {sentence : Sentence} {opening stop : Nat} {ranges : List TokenRange}
    {closing? : Option Nat} (hopening : sentence.kindAt opening = .lBrace)
    (htile : TokenRange.Tile ranges (opening + 1) stop)
    (hwithin : stop ≤ max (opening + 1) sentence.size)
    (hstop : sentence.kindAt stop = .rBrace ∨ sentence.kindAt stop = .eof)
    (hclosing : closing? = some stop ∧ sentence.kindAt stop = .rBrace ∨
      closing? = none ∧ sentence.kindAt stop ≠ .rBrace) :
    Body.OwnsTokens sentence ⟨some opening, ranges, closing?⟩ := by
  rintro _ ⟨⟩
  have hsize := Sentence.lt_size_of_kindAt (ne_of_eq_of_ne hopening (by decide))
  refine ⟨hopening, stop, htile, by omega, ?_⟩
  rcases hclosing with hclosed | ⟨hnone, hno⟩
  · exact .inl hclosed
  · exact .inr ⟨hnone, hstop.resolve_left hno⟩

structure Sentence.TakesStmt (sentence : Sentence) (stmt : Stmt) (before after : ParseState) :
    Prop where
  range : stmt.range = ⟨before.position, after.position⟩
  moves : sentence.kindAt before.position ≠ .eof → before.position < after.position
  gathers : sentence.Gathers [.node (.stmt stmt)] before after

namespace Parse

variable {input : Input} {state origin : ParseState} {nested : Parse Stmt}

def CollectsStmts (nested : Parse Stmt) (input : Input) : Prop :=
  ∀ state, Ends nested input state fun stmt after => input.sentence.TakesStmt stmt state after

theorem takesStmt_of_range {start : Nat} {make : TokenRange → Stmt}
    (hstart : start = origin.position) (hmake : ∀ range, (make range).range = range)
    (h : input.sentence.Gathers (make ⟨origin.position, state.position⟩).entries origin state)
    (hmoves : input.sentence.kindAt origin.position ≠ .eof → origin.position < state.position) :
    Ends (rangeFrom start >>= fun range => pure (make range)) input state fun stmt after =>
      input.sentence.TakesStmt stmt origin after := by
  have hforward := h.forward
  refine rangeFrom_step (by omega) (.pure ?_)
  rw [hstart]
  exact ⟨hmake _, hmoves, h.stmt (hmake _)⟩

theorem declarator_collects : Collects declarator input fun declarator =>
    declarator.nodes.map .node := by
  intro state
  unfold declarator
  refine (expect_collects rfl state).bind fun name? after₁ hname => ?_
  refine (eat_collects rfl after₁).bind fun eq? after₂ heq => ?_
  cases eq? with
  | none => exact .pure (hname.trans heq)
  | some eq =>
      refine (variableValue_collects after₂).bind fun value after₃ hvalue => .pure ?_
      exact hname.trans (heq.trans hvalue)

theorem declarators_collect : Collects declarators input fun list =>
    (list.flatMap (·.nodes)).map .node := by
  unfold declarators
  simpa only [List.map_flatMap] using separated_collects declarator_collects

theorem eatModifier_gathers {modifier : Modifier} {keyword : TokenKind} (set : ModifierSet)
    (hkeyword : keyword.isPlain = true) :
    Ends (eatModifier modifier keyword set) input state fun _ after =>
      input.sentence.Gathers [] state after ∧
        (state.position < after.position ∨
          after.position = state.position ∧ input.sentence.kindAt state.position ≠ keyword) := by
  unfold eatModifier
  refine (eat_ends (TokenKind.ne_of_isPlain hkeyword).1).bind ?_
  rintro token? after (⟨hyes, rfl, rfl⟩ | ⟨hno, rfl, rfl⟩)
  · exact .pure ⟨gathers_token (isPlain_of_kind hyes hkeyword), .inl (Nat.lt_succ_self _)⟩
  · exact .pure ⟨.refl, .inr ⟨rfl, hno⟩⟩

theorem refQualifier?_gathers :
    Ends refQualifier? input state fun qualifier? after =>
      input.sentence.Gathers [] state after ∧
        (state.position < after.position ∨ qualifier? = none ∧
          after.position = state.position ∧ input.sentence.kindAt state.position ≠ .refKw) := by
  have hqualifier : Ends refQualifier? input state fun qualifier? after =>
      state.position < after.position ∨ qualifier? = none ∧
        after.position = state.position ∧ input.sentence.kindAt state.position ≠ .refKw := by
    have hnone : Ends refQualifier? input state fun qualifier? _ =>
        qualifier? = none → input.sentence.kindAt state.position ≠ .refKw := by
      unfold refQualifier?
      refine .askIf (fun _ => ?_) fun _ => .checkIf (fun _ => ?_) fun hno => .pure fun _ => hno
      · exact .noteHere nofun
      · exact .noteHere nofun
    refine (hnone.and refQualifier?_builds).imp ?_
    rintro qualifier? after ⟨hnone, hbuilt⟩
    cases qualifier? with
    | none =>
        cases hbuilt
        exact .inr ⟨rfl, rfl, hnone rfl⟩
    | some qualifier => exact .inl hbuilt.2.1
  exact (refQualifier?_collects state).and hqualifier

def StartsLocal (kind : TokenKind) : Prop :=
  kind = .constKw ∨ kind = .refKw ∨ kind = .readonlyKw ∨ TokenSet.typeStart.contains kind = true

theorem localDeclaration_gathers :
    Ends localDeclaration input state fun decl after =>
      (StartsLocal (input.sentence.kindAt state.position) → state.position < after.position) ∧
        input.sentence.Gathers
          ((.type decl.type :: decl.declarators.flatMap (·.nodes)).map .node) state after := by
  unfold localDeclaration
  refine (eatModifier_gathers .empty rfl).bind ?_
  rintro constant after₁ ⟨hconstant, hmoved₁⟩
  refine refQualifier?_gathers.bind ?_
  rintro qualifier? after₂ ⟨hqualifier, hmoved₂⟩
  have hmodifiers : Ends
      (if qualifier?.isNone then eatModifier .readonlyKw .readonlyKw constant else pure constant)
      input after₂ fun _ after => input.sentence.Gathers [] after₂ after ∧
        (after₂.position < after.position ∨ qualifier?.isSome = true ∨
          after.position = after₂.position ∧
            input.sentence.kindAt after₂.position ≠ .readonlyKw) := by
    cases qualifier? with
    | none =>
        refine (eatModifier_gathers constant rfl).imp ?_
        rintro set after ⟨hset, hmoved | hstayed⟩
        · exact ⟨hset, .inl hmoved⟩
        · exact ⟨hset, .inr (.inr hstayed)⟩
    | some qualifier => exact .pure ⟨.refl, .inr (.inl rfl)⟩
  refine hmodifiers.join ?_
  rintro modifiers after₃ ⟨hmodifiers, hmoved₃⟩
  have htype : Ends (qualifiedType qualifier?) input after₃ fun type after =>
      input.sentence.Gathers [.node (.type type)] after₃ after ∧
        (qualifier? = none →
          TokenSet.typeStart.contains (input.sentence.kindAt after₃.position) = true →
            after₃.position < after.position) := by
    refine (qualifiedType_collects qualifier? after₃).and ?_
    cases qualifier? with
    | none =>
        by_cases hstart : TokenSet.typeStart.contains (input.sentence.kindAt after₃.position) = true
        · exact (type_moves hstart).imp fun _ _ h _ _ => h
        · exact (type_entries after₃).imp fun _ _ _ _ h => absurd h hstart
    | some qualifier =>
        exact (qualifiedType_collects (some qualifier) after₃).imp fun _ _ _ => nofun
  refine htype.bind ?_
  rintro type after₄ ⟨htype, hmoved₄⟩
  refine (declarators_collect after₄).bind fun declarators after₅ hdeclarators => ?_
  refine (expect_collects rfl after₅).bind fun semicolon? after₆ hsemicolon => .pure ⟨?_, ?_⟩
  · intro hstart
    have hforward₁ := hconstant.forward
    have hforward₂ := hqualifier.forward
    have hforward₃ := hmodifiers.forward
    have hforward₄ := htype.forward
    have hforward₅ := (hdeclarators.trans hsemicolon).forward
    -- Where nothing in front of the type is taken, the type starts where the declaration does.
    rcases hmoved₁ with hmoved | ⟨hat₁, hconst⟩
    · omega
    rcases hmoved₂ with hmoved | ⟨rfl, hat₂, href⟩
    · omega
    rcases hmoved₃ with hmoved | hsome | ⟨hat₃, hreadonly⟩
    · omega
    · cases hsome
    rw [hat₁] at href hat₂
    rw [hat₂] at hreadonly hat₃
    have htypeStart := ((hstart.resolve_left hconst).resolve_left href).resolve_left hreadonly
    rw [← hat₃] at htypeStart
    have hmoved := hmoved₄ rfl htypeStart
    omega
  · have hfront := hconstant.trans (hqualifier.trans hmodifiers)
    exact (hfront.trans (htype.trans hdeclarators)).behind hsemicolon

theorem startsDeclaration_start :
    Ends startsDeclaration input state fun starts after => after = state ∧
      (starts = true →
        TokenSet.typeStart.contains (input.sentence.kindAt state.position) = true) := by
  unfold startsDeclaration
  refine .ask fun atType hat => .ite (fun hyes => ?_) fun _ => .pure ⟨rfl, nofun⟩
  exact lookAhead_ends fun _ => ⟨rfl, fun _ => hat.trans hyes⟩

/-! ## Blocks and statements -/

theorem stmts_done (hnested : CollectsStmts nested input) :
    Ends (many (unlessClosed nested)) input state fun stmts after =>
      (input.sentence.kindAt after.position = .rBrace ∨
          input.sentence.kindAt after.position = .eof) ∧
        TokenRange.Tile (stmts.map (·.range)) state.position after.position ∧
        input.sentence.Gathers (stmts.map fun stmt => .node (.stmt stmt)) state after := by
  refine many_done (fun stmts after =>
    TokenRange.Tile (stmts.map (·.range)) state.position after.position ∧
      input.sentence.Gathers (stmts.map fun stmt => .node (.stmt stmt)) state after) ?_ ?_
    ⟨.nil _, .refl⟩
  · rintro stmts before ⟨htile, hstmts⟩
    refine whenever_ends (fun hopen => ?_) fun hclosed => ?_
    · obtain ⟨-, heof⟩ : input.sentence.kindAt before.position ≠ .rBrace ∧
          input.sentence.kindAt before.position ≠ .eof := by simpa using hopen
      refine (hnested before).imp fun stmt after hstmt => ⟨⟨?_, ?_⟩, hstmt.moves heof⟩
      · rw [List.map_append, List.map_singleton, hstmt.range]
        exact htile.append_singleton (hstmt.moves heof)
      · rw [List.map_append, List.map_singleton]
        exact hstmts.trans hstmt.gathers
    · refine ⟨?_, htile, hstmts⟩
      by_cases hbrace : input.sentence.kindAt before.position = .rBrace
      · exact .inl hbrace
      · exact .inr (by simpa [hbrace] using hclosed)
  · rintro stmts before ⟨htile, hstmts⟩ hsize
    exact ⟨.inr (Sentence.kindAt_eq_eof hsize), htile, hstmts⟩

theorem blockOf_gathers (hnested : CollectsStmts nested input)
    (hkind : input.sentence.kindAt state.position = .lBrace) :
    Ends (blockOf nested) input state fun block after =>
      block.range = ⟨state.position, after.position⟩ ∧ state.position < after.position ∧
        input.sentence.Gathers block.entries state after := by
  unfold blockOf
  refine .position (.advance (by simp [hkind]) ((stmts_done hnested).bind ?_))
  rintro stmts after₁ ⟨hstop, htile, hstmts⟩
  have hmoved : Ends (expect .rBrace) input after₁ fun _ after =>
      after₁.position ≤ after.position := by
    refine (expect_ends (by decide)).imp ?_
    rintro _ _ (⟨-, -, rfl⟩ | ⟨-, -, rfl⟩)
    · exact Nat.le_succ _
    · exact Nat.le_refl _
  refine (hmoved.and (closing_gathers hkind hstmts)).bind ?_
  rintro closing? after₂ ⟨hle, hblock, hclosing⟩
  have hforward : state.position + 1 ≤ after₁.position := hstmts.forward
  refine rangeFrom_step (by omega) (.pure ⟨rfl, by omega, ?_⟩)
  exact hblock.withBody (Body.ownsTokens hkind htile hstmts.within hstop hclosing)

theorem returned?_collects : Collects returned? input fun value? =>
    (value?.toList.map .expr).map .node := by
  intro state
  unfold returned?
  refine .checkIf (fun _ => .pure .refl) fun _ => ?_
  exact (expr_collects state).bind fun value after hvalue => .pure hvalue

theorem condition_collects : Collects condition input fun condition =>
    [.node (.expr condition)] := by
  intro state
  unfold condition
  refine (expect_collects rfl state).bind fun _ after₁ hopening => ?_
  refine (expr_collects after₁).bind fun condition after₂ hcondition => ?_
  refine (expect_collects rfl after₂).bind fun _ after₃ hclosing => ?_
  exact .pure (hopening.trans (hcondition.trans hclosing))

theorem returnStmt_gathers (hkind : input.sentence.kindAt state.position = .returnKw) :
    Ends returnStmt input state fun stmt after => input.sentence.TakesStmt stmt state after := by
  unfold returnStmt
  refine .position ((advance_gathers (isPlain_of_kind hkind rfl)).bind ?_)
  rintro keyword after₁ ⟨-, hnext, hkeyword⟩
  refine .ask fun atRef _ => .skip (fun after => input.sentence.Gathers [] after₁ after)
    (fun _ => Gathers.refl.noted rfl (Nat.le_refl _)) (fun _ => .refl) fun after₂ huses => ?_
  refine (eat_collects rfl after₂).bind fun ref? after₃ href => ?_
  refine (returned?_collects after₃).bind fun value? after₄ hvalue => ?_
  refine (expect_collects rfl after₄).bind fun semicolon? after₅ hsemicolon => ?_
  have hbehind := (huses.trans (href.trans hvalue)).behind hsemicolon
  have hforward := hbehind.forward
  exact takesStmt_of_range rfl (fun _ => rfl) (hkeyword.trans hbehind) fun _ => by omega

theorem throwStmt_gathers (hkind : input.sentence.kindAt state.position = .throwKw) :
    Ends throwStmt input state fun stmt after => input.sentence.TakesStmt stmt state after := by
  unfold throwStmt
  refine .position ((advance_gathers (isPlain_of_kind hkind rfl)).bind ?_)
  rintro keyword after₁ ⟨-, hnext, hkeyword⟩
  refine (returned?_collects after₁).bind fun value? after₂ hvalue => ?_
  refine (expect_collects rfl after₂).bind fun semicolon? after₃ hsemicolon => ?_
  have hbehind := hvalue.behind hsemicolon
  have hforward := hbehind.forward
  exact takesStmt_of_range rfl (fun _ => rfl) (hkeyword.trans hbehind) fun _ => by omega

theorem ifElse_gathers (hnested : CollectsStmts nested input)
    (hkind : input.sentence.kindAt state.position = .ifKw) :
    Ends (ifElse nested) input state fun stmt after =>
      input.sentence.TakesStmt stmt state after := by
  unfold ifElse
  refine .position ((advance_gathers (isPlain_of_kind hkind rfl)).bind ?_)
  rintro keyword after₁ ⟨-, hnext, hkeyword⟩
  refine (condition_collects after₁).bind fun condition after₂ hcondition => ?_
  refine (hnested after₂).bind fun whenTrue after₃ htrue => ?_
  refine (eat_collects rfl after₃).bind fun else? after₄ helse => ?_
  have hfront := (hcondition.trans htrue.gathers).behind helse
  have hrest : ∀ whenFalse? after,
      input.sentence.Gathers ((whenFalse?.toList.map .stmt).map .node) after₄ after →
      Ends (rangeFrom state.position >>= fun range =>
        pure (Stmt.ifElse range keyword condition whenTrue whenFalse?)) input after
        fun stmt after => input.sentence.TakesStmt stmt state after := by
    intro whenFalse? after hfalse
    have hbehind := hfront.trans hfalse
    have hforward := hbehind.forward
    exact takesStmt_of_range rfl (fun _ => rfl) (hkeyword.trans hbehind) fun _ => by omega
  cases else? with
  | none => exact .pureBind (hrest none after₄ .refl)
  | some token =>
      have hfalse : Ends (some <$> nested) input after₄ fun whenFalse? after =>
          input.sentence.Gathers ((whenFalse?.toList.map .stmt).map .node) after₄ after :=
        .map ((hnested after₄).imp fun _ _ h => h.gathers)
      exact hfalse.bind hrest

theorem whileLoop_gathers (hnested : CollectsStmts nested input)
    (hkind : input.sentence.kindAt state.position = .whileKw) :
    Ends (whileLoop nested) input state fun stmt after =>
      input.sentence.TakesStmt stmt state after := by
  unfold whileLoop
  refine .position ((advance_gathers (isPlain_of_kind hkind rfl)).bind ?_)
  rintro keyword after₁ ⟨-, hnext, hkeyword⟩
  refine (condition_collects after₁).bind fun condition after₂ hcondition => ?_
  refine (hnested after₂).bind fun body after₃ hbody => ?_
  have hbehind := hcondition.trans hbody.gathers
  have hforward := hbehind.forward
  exact takesStmt_of_range rfl (fun _ => rfl) (hkeyword.trans hbehind) fun _ => by omega

theorem declarationStmt_gathers (hstart : StartsLocal (input.sentence.kindAt state.position)) :
    Ends declarationStmt input state fun stmt after =>
      input.sentence.TakesStmt stmt state after := by
  unfold declarationStmt
  refine .position (localDeclaration_gathers.bind ?_)
  rintro decl after ⟨hmoves, hdecl⟩
  exact takesStmt_of_range rfl (fun _ => rfl) hdecl fun _ => hmoves hstart

theorem expressionStmt_gathers
    (hstart : TokenSet.expressionStart.contains (input.sentence.kindAt state.position) = true) :
    Ends expressionStmt input state fun stmt after =>
      input.sentence.TakesStmt stmt state after := by
  unfold expressionStmt
  refine .position (expr_gathers.bind ?_)
  rintro expr after₁ ⟨hmoves, hexpr⟩
  refine (expect_collects rfl after₁).bind fun semicolon? after₂ hsemicolon => ?_
  have hforward := hsemicolon.forward
  have hmoved := hmoves hstart
  exact takesStmt_of_range rfl (fun _ => rfl) (hexpr.behind hsemicolon) fun _ => by omega

theorem skippedStmt_collects : CollectsStmts skippedStmt input := by
  intro state
  have hnoted : input.sentence.Gathers [.fault (.skippedStmt state.position)] state
      { state with findings := .invalidTerm state.position :: state.findings } :=
    Gathers.refl.faulty _ rfl trivial (Nat.le_refl _)
  unfold skippedStmt
  refine .position (.noteHere ?_)
  by_cases heof : input.sentence.kindAt state.position = .eof
  · refine Ends.bind (Ends.advance_at_end (by exact heof)) ?_
    rintro _ _ rfl
    exact takesStmt_of_range rfl (fun _ => rfl) hnoted fun h => absurd heof h
  · have hsize := Sentence.lt_size_of_kindAt heof
    refine .advance heof ?_
    have hskipped := hnoted.skip (Nat.le_succ state.position)
      (by simp only; omega) fun hclean =>
        .single (hclean _ (List.mem_singleton_self (Fault.skippedStmt state.position)))
    exact takesStmt_of_range rfl (fun _ => rfl) hskipped fun _ => Nat.lt_succ_self _

theorem stmtStep_collects (hnested : CollectsStmts nested input) :
    CollectsStmts (stmtStep nested) input := by
  intro state
  unfold stmtStep
  refine .kind fun kind hkind => ?_
  split
  · refine (blockOf_gathers hnested hkind).bind ?_
    rintro block after ⟨hrange, hmoved, hblock⟩
    have hstmt : input.sentence.Gathers (Stmt.block block.range block).entries state after := hblock
    exact .pure ⟨hrange, fun _ => hmoved, hstmt.stmt hrange⟩
  · refine (advance_gathers (isPlain_of_kind hkind rfl)).bind ?_
    rintro _ after ⟨rfl, hnext, hsemicolon⟩
    have hrange : TokenRange.single state.position = ⟨state.position, after.position⟩ := by
      rw [hnext]
      rfl
    have hempty : input.sentence.Gathers
        (Stmt.empty (.single state.position) state.position).entries state after := hsemicolon
    exact .pure ⟨hrange, fun _ => by omega, hempty.stmt hrange⟩
  · exact returnStmt_gathers hkind
  · exact throwStmt_gathers hkind
  · exact ifElse_gathers hnested hkind
  · exact whileLoop_gathers hnested hkind
  · exact declarationStmt_gathers (.inr (.inr (.inl hkind)))
  · exact declarationStmt_gathers (.inr (.inl hkind))
  · exact declarationStmt_gathers (.inl hkind)
  · refine .ite (fun _ => skippedStmt_collects state) fun hexpr => startsDeclaration_start.bind ?_
    rintro starts _ ⟨rfl, htype⟩
    refine .ite (fun hstarts => ?_) fun _ => ?_
    · exact declarationStmt_gathers (.inr (.inr (.inr (htype hstarts))))
    · refine expressionStmt_gathers ?_
      rw [hkind]
      simpa using hexpr

theorem stmtWithin_collects (n : Nat) : CollectsStmts (stmtWithin n) input := by
  induction n with
  | zero => exact skippedStmt_collects
  | succ n ih => exact stmtStep_collects ih

theorem stmt_collects : CollectsStmts stmt input :=
  fun state => .left (stmtWithin_collects _ state)

theorem block_gathers (hkind : input.sentence.kindAt state.position = .lBrace) :
    Ends block input state fun block after =>
      input.sentence.Gathers block.entries state after :=
  (blockOf_gathers stmt_collects hkind).imp fun _ _ h => h.2.2

end Parse
end TolerantSyntax
