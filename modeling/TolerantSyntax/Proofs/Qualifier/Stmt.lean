import TolerantSyntax.Proofs.Qualifier.Expr

/-!
# Statements declare types by reference

A local declaration takes a `readonly` as a modifier only where no `ref` follows.  What is
skipped as a statement is never a `readonly`: where no symbol is left for a statement, the
sentence is over.
-/

namespace TolerantSyntax.Parse

variable {input : Input} {state : ParseState} {place : Nat} {nested : Parse Stmt}

theorem declarators_steady :
    Steady declarators input place fun declarators =>
      input.sentence.Plain (declarators.flatMap (·.nodes)) := by
  have hdeclarator : Steady declarator input place fun declarator =>
      input.sentence.Plain declarator.nodes := by
    unfold declarator
    refine (expect_steady (by decide)).bind fun name? _ => (eat_steady (by decide)).bind
      fun eq? _ => ?_
    cases eq? with
    | none => exact .pure .nil
    | some eq => exact variableValue_steady.bind fun value hvalue => .pure hvalue
  exact (separated_steady hdeclarator).imp fun _ h => .flatMap h

theorem eatModifier_cases {modifier : Modifier} {keyword : TokenKind} {set : ModifierSet}
    (hkeyword : keyword ≠ .eof) :
    Ends (eatModifier modifier keyword set) input state fun modifiers after =>
      (input.sentence.kindAt state.position = keyword ∧
          modifiers = set.push modifier state.position ∧
          after = { state with position := state.position + 1 }) ∨
        (input.sentence.kindAt state.position ≠ keyword ∧ modifiers = set ∧ after = state) := by
  unfold eatModifier
  refine (eat_ends hkeyword).bind ?_
  rintro _ _ (⟨hkind, rfl, rfl⟩ | ⟨hkind, rfl, rfl⟩)
  · exact .pure (.inl ⟨hkind, rfl, rfl⟩)
  · exact .pure (.inr ⟨hkind, rfl, rfl⟩)

theorem localDeclaration_steady :
    Steady localDeclaration input place fun decl =>
      input.sentence.Declares decl.modifiers decl.type ∧
        input.sentence.Plain (decl.declarators.flatMap (·.nodes)) := by
  have hrest : ∀ {modifiers qualifier?},
      (∀ qualifier ∈ qualifier?, RefQualifier.Behind input.sentence modifiers qualifier) →
      Steady (do
        let type ← qualifiedType qualifier?
        let declarators ← declarators
        let semicolon? ← expect .semicolon
        return (⟨modifiers, type, declarators, semicolon?⟩ : LocalDeclaration)) input place
        fun decl => input.sentence.Declares decl.modifiers decl.type ∧
          input.sentence.Plain (decl.declarators.flatMap (·.nodes)) := by
    intro modifiers qualifier? hqualifier
    refine (qualifiedType_steady hqualifier).bind fun type htype => ?_
    refine declarators_steady.bind fun declarators hdeclarators => ?_
    exact (expect_steady (by decide)).bind fun _ _ => .pure ⟨htype, hdeclarators⟩
  have hnone : ∀ {modifiers}, ∀ qualifier ∈ (none : Option RefQualifier),
      qualifier.Behind input.sentence modifiers := by
    rintro modifiers qualifier ⟨⟩
  intro state hclear
  unfold localDeclaration
  refine (eatModifier_cases (by decide)).bind ?_
  intro constant before hconstant
  have hbefore : (∀ entry ∈ constant.entries, entry.token < before.position) ∧
      input.sentence.Clear place before.position := by
    rcases hconstant with ⟨hkind, rfl, rfl⟩ | ⟨-, rfl, rfl⟩
    · exact ⟨List.forall_mem_singleton.mpr (Nat.lt_succ_self _), hclear.taken hkind nofun⟩
    · exact ⟨nofun, hclear⟩
  obtain ⟨hmodifiers, hbefore⟩ := hbefore
  refine (refQualifier?_cases hbefore.here).bind ?_
  rintro qualifier? after (⟨qualifier, rfl, hwhole, hafter⟩ | ⟨rfl, rfl, hno⟩)
  · refine .ite nofun fun _ => .pureBind ?_
    refine hrest ?_ after (hafter.from_le (Nat.le_succ_of_le hbefore.le))
    rintro _ ⟨⟩
    exact ⟨before.position, hwhole, hmodifiers⟩
  · -- Without a qualifier a `readonly` is a modifier, and no `ref` follows it.
    refine .ite (fun _ => (eatModifier_cases (by decide)).bind ?_) fun hsome => absurd rfl hsome
    rintro modifiers last (⟨hkind, rfl, rfl⟩ | ⟨-, rfl, rfl⟩)
    · refine hrest hnone _ (.of_kind (Nat.le_succ_of_le hbefore.le) ?_)
      simpa [Sentence.qualifierAt, hkind] using hno
    · exact hrest hnone _ hbefore

def SteadyStmt (parse : Parse Stmt) (input : Input) (place : Nat) : Prop :=
  Steady parse input place fun stmt => input.sentence.Plain [.stmt stmt]

def KeptStmt (input : Input) (place : Nat) : Stmt → ParseState → Prop :=
  Kept input place fun stmt => input.sentence.Plain [.stmt stmt]

theorem plain_stmt {stmt : Stmt} (hnone : (Node.stmt stmt).declared? = none)
    (h : input.sentence.Plain stmt.children) : input.sentence.Plain [.stmt stmt] :=
  .single rfl (.of_plain hnone h)

theorem blockOf_kept (hnested : SteadyStmt nested input (place + 1))
    (hclear : input.sentence.Clear place state.position)
    (hkind : input.sentence.kindAt state.position = .lBrace) :
    Ends (blockOf nested) input state
      (Kept input place fun block => input.sentence.Plain (block.stmts.map .stmt)) := by
  have hitem : SteadySome (unlessClosed nested) input (place + 1)
      fun stmt => input.sentence.Plain [.stmt stmt] :=
    whenever_steady fun state hclear _ => hnested state hclear
  have hblock : Ends (blockOf nested) input state
      (Kept input (place + 1) fun block => input.sentence.Plain (block.stmts.map .stmt)) := by
    unfold blockOf
    refine .position ((advance_next hclear hkind nofun nofun).onward fun opening _ => ?_)
    refine (many_steady hitem).bind fun stmts hstmts => (expect_steady (by decide)).bind
      fun closing? _ => .rangeFrom fun range => .pure ?_
    exact .map hstmts
  exact hblock.imp fun _ _ h => h.from_next

theorem returned?_steady :
    Steady returned? input place fun value? => input.sentence.Plain (value?.toList.map .expr) := by
  unfold returned?
  refine .ask fun closed => .ite (fun _ => .pure .nil) fun _ => ?_
  exact expr_steady.bind fun value hvalue => .pure hvalue

theorem condition_steady : SteadyExpr condition input place := by
  unfold condition
  refine (expect_steady (by decide)).bind fun _ _ => expr_steady.bind fun value hvalue => ?_
  exact (expect_steady (by decide)).bind fun _ _ => .pure hvalue

theorem returnStmt_kept (hclear : input.sentence.Clear place state.position)
    (hkind : input.sentence.kindAt state.position = .returnKw) :
    Ends returnStmt input state (KeptStmt input place) := by
  unfold returnStmt
  refine .position ((advance_kept hclear (by simp [hkind])).onward fun keyword _ => ?_)
  refine .ask fun atRef => .skip (.notedHere _) ((eat_steady (by decide)).bind fun ref? _ => ?_)
  refine returned?_steady.bind fun value? hvalue => (expect_steady (by decide)).bind
    fun semicolon? _ => .rangeFrom fun range => .pure ?_
  exact plain_stmt rfl hvalue

theorem throwStmt_kept (hclear : input.sentence.Clear place state.position)
    (hkind : input.sentence.kindAt state.position = .throwKw) :
    Ends throwStmt input state (KeptStmt input place) := by
  unfold throwStmt
  refine .position ((advance_kept hclear (by simp [hkind])).onward fun keyword _ => ?_)
  refine returned?_steady.bind fun value? hvalue => (expect_steady (by decide)).bind
    fun semicolon? _ => .rangeFrom fun range => .pure ?_
  exact plain_stmt rfl hvalue

theorem ifElse_kept (hnested : SteadyStmt nested input (place + 1))
    (hclear : input.sentence.Clear place state.position)
    (hkind : input.sentence.kindAt state.position = .ifKw) :
    Ends (ifElse nested) input state (KeptStmt input place) := by
  have hstmt : Ends (ifElse nested) input state (KeptStmt input (place + 1)) := by
    unfold ifElse
    refine .position ((advance_next hclear hkind nofun nofun).onward fun keyword _ => ?_)
    refine condition_steady.bind fun condition hcondition => hnested.bind fun whenTrue htrue => ?_
    refine (eat_steady (by decide)).bind fun else? _ => ?_
    have hrest : ∀ whenFalse?, input.sentence.Plain (whenFalse?.toList.map .stmt) →
        SteadyStmt (rangeFrom state.position >>= fun range =>
          pure (.ifElse range keyword condition whenTrue whenFalse?)) input (place + 1) :=
      fun whenFalse? hfalse => .rangeFrom fun range => .pure
        (plain_stmt rfl (hcondition.append (htrue.append hfalse)))
    cases else? with
    | none => exact fun state hclear => .pureBind (hrest none .nil state hclear)
    | some token =>
        have hfalse : Steady (some <$> nested) input (place + 1) fun whenFalse? =>
            input.sentence.Plain (whenFalse?.toList.map .stmt) := .map hnested
        exact hfalse.bind hrest
  exact hstmt.imp fun _ _ h => h.from_next

theorem whileLoop_kept (hnested : SteadyStmt nested input (place + 1))
    (hclear : input.sentence.Clear place state.position)
    (hkind : input.sentence.kindAt state.position = .whileKw) :
    Ends (whileLoop nested) input state (KeptStmt input place) := by
  have hstmt : Ends (whileLoop nested) input state (KeptStmt input (place + 1)) := by
    unfold whileLoop
    refine .position ((advance_next hclear hkind nofun nofun).onward fun keyword _ => ?_)
    refine condition_steady.bind fun condition hcondition => hnested.bind fun body hbody => ?_
    exact .rangeFrom fun range => .pure (plain_stmt rfl (hcondition.append hbody))
  exact hstmt.imp fun _ _ h => h.from_next

theorem declarationStmt_steady : SteadyStmt declarationStmt input place := by
  unfold declarationStmt
  refine .position fun start => localDeclaration_steady.bind fun decl hdecl => ?_
  exact .rangeFrom fun range => .pure (.single rfl (.of_declared hdecl.1 rfl hdecl.2))

theorem expressionStmt_steady : SteadyStmt expressionStmt input place := by
  unfold expressionStmt
  refine .position fun start => expr_steady.bind fun expr hexpr => ?_
  refine (expect_steady (by decide)).bind fun semicolon? _ => .rangeFrom fun range => .pure ?_
  exact plain_stmt rfl hexpr

theorem skippedStmt_kept (hclear : input.sentence.Clear place state.position)
    (hkind : input.sentence.kindAt state.position ≠ .readonlyKw) :
    Ends skippedStmt input state (KeptStmt input place) := by
  unfold skippedStmt
  refine .position (.noteHere (.onward (advance_kept hclear hkind) fun _ _ => ?_))
  exact .rangeFrom fun range => .pure (plain_stmt rfl .nil)

theorem startsDeclaration_steady : Steady startsDeclaration input place fun _ => True := by
  unfold startsDeclaration
  refine .ask fun atType => .ite (fun _ => ?_) fun _ => .pure trivial
  exact fun state hclear => lookAhead_ends fun _ => ⟨trivial, hclear⟩

theorem stmtStep_steady (hnested : SteadyStmt nested input (place + 1)) :
    SteadyStmt (stmtStep nested) input place := by
  unfold stmtStep
  refine .kind fun state kind hclear hkind => ?_
  split
  · refine (blockOf_kept hnested hclear hkind).onward fun block hblock => .pure ?_
    exact plain_stmt rfl hblock
  · refine (advance_kept hclear (by simp [hkind])).onward fun semicolon _ => .pure ?_
    exact plain_stmt rfl .nil
  · exact returnStmt_kept hclear hkind
  · exact throwStmt_kept hclear hkind
  · exact ifElse_kept hnested hclear hkind
  · exact whileLoop_kept hnested hclear hkind
  · exact declarationStmt_steady state hclear
  · exact declarationStmt_steady state hclear
  · exact declarationStmt_steady state hclear
  · rename_i hreadonly _ _
    refine .ite (fun _ => skippedStmt_kept hclear (by rwa [hkind])) fun _ => ?_
    refine (startsDeclaration_steady state hclear).onward fun starts _ => ?_
    exact .ite (fun _ => declarationStmt_steady) fun _ => expressionStmt_steady

theorem stmtWithin_steady (n : Nat) (hn : input.sentence.left place ≤ n) :
    SteadyStmt (stmtWithin n) input place := by
  induction n generalizing place with
  | zero =>
      intro state hclear
      have heof : input.sentence.kindAt state.position = .eof := by
        have hle := hclear.le
        refine Sentence.kindAt_of_left ?_
        unfold Sentence.left at hn ⊢
        omega
      exact skippedStmt_kept hclear (by simp [heof])
  | succ n ih => exact stmtStep_steady (ih (Sentence.left_succ_le hn))

theorem stmt_steady : SteadyStmt stmt input place := by
  intro state hclear
  refine .left ((stmtWithin_steady _ (Nat.le_refl _) state hclear.here).imp fun _ _ h => ?_)
  exact ⟨h.1, h.2.from_le hclear.le⟩

theorem block_kept (hclear : input.sentence.Clear place state.position)
    (hkind : input.sentence.kindAt state.position = .lBrace) :
    Ends block input state
      (Kept input place fun block => input.sentence.Plain (block.stmts.map .stmt)) :=
  blockOf_kept stmt_steady hclear hkind

end TolerantSyntax.Parse
