import TolerantSyntax.Proofs.RoundTrip.StmtParts

/-!
# Statements are read back

Each statement is told by its first token, but for declarations and expressions.  An `else` is
read by the nearest `if` that has none yet, so behind a statement that an `if` without one ends
there must not be another.
-/

namespace TolerantSyntax.Parse

variable {n : Nat} {input : Input} {word : Nat → Spelling} {state : ParseState} {stop : Nat}

def RestoresStmts (n : Nat) (input : Input) (word : Nat → Spelling) (nested : Parse Stmt) : Prop :=
  ∀ (stmt : StmtTerm) (state : ParseState) (stop : Nat), stmt.WellFormed →
    input.sentence.Shows word state.position stmt.signs →
    stop = state.position + stmt.signs.length → input.sentence.left state.position ≤ n →
    (stmt.endsOpen = true → input.sentence.kindAt stop ≠ .elseKw) →
    Ends nested input state (Back (fun got => got.term? word = some stmt) stop state)

theorem stmtTerms_of_forall₂ {stmts : List StmtTerm} {trees : List Stmt}
    (h : List.Forall₂ (fun stmt tree => tree.term? word = some stmt) stmts trees) :
    stmtTerms? word trees = some stmts := by
  induction h with
  | nil => rfl
  | cons htree _ ih => simp [htree, ih]

section Nested

variable {nested : Parse Stmt} (hnested : RestoresStmts n input word nested)
include hnested

theorem blockOf_back {stmts : List StmtTerm} (hstmts : ∀ stmt ∈ stmts, stmt.WellFormed)
    (hshows : input.sentence.Shows word state.position (StmtTerm.block stmts).signs)
    (hn : input.sentence.left state.position ≤ n + 1) :
    Ends (blockOf nested) input state
      (Back (fun got => got.terms? word = some stmts)
        (state.position + (StmtTerm.block stmts).signs.length) state) := by
  have hopening : input.sentence.kindAt state.position = .lBrace := hshows.kind
  obtain ⟨hinner, hback⟩ := Sentence.shows_append.mp hshows.tail
  have hclosing : input.sentence.kindAt (state.position + 1 + (stmtSigns stmts).length) =
      .rBrace := hback.kind
  rw [stmtSigns_eq] at hinner
  have hkind : ∀ stmt ∈ stmts, ∀ index, input.sentence.Shows word index stmt.signs →
      input.sentence.kindAt index ≠ .elseKw ∧ input.sentence.kindAt index ≠ .rBrace ∧
        input.sentence.kindAt index ≠ .eof :=
    fun stmt hmem index hstmt => TokenKind.ne_of_not_startsNoStmt ((hstmts stmt hmem).head hstmt)
  have hrow := Sentence.Row.of_signs (fun _ _ _ => Sentence.shows_append.mp)
    (Nat.le_refl (state.position + 1)) (fun _ hmem => hmem)
    (fun stmt _ => stmt.signs_ne_nil)
    (fun stmt hmem index hstmt => (hkind stmt hmem index hstmt).2.2) (by rw [← stmtSigns_eq])
    hinner
  have hmany : Ends (many (unlessClosed nested)) input { state with position := state.position + 1 }
      (Back (List.Forall₂ (fun stmt tree => tree.term? word = some stmt) stmts)
        (state.position + 1 + (stmtSigns stmts).length)
        { state with position := state.position + 1 }) := by
    refine many_back ?_ ?_ hrow
    · rintro stmt hmem before middle ⟨hfirst, hstmt, hmiddle, hnext⟩
      obtain ⟨-, hclose, heof⟩ := hkind stmt hmem _ hstmt
      refine whenever_ends (fun _ => ?_) fun hno => ?_
      · refine (hnested stmt before middle (hstmts stmt hmem) hstmt hmiddle ?_
          fun _ helse => ?_).imp fun got after hgot => ⟨got, rfl, hgot⟩
        · unfold Sentence.left at hn ⊢
          omega
        -- Behind it comes the `}` or a statement, and neither is an `else`.
        · rcases hnext with rfl | ⟨next, hmem', hnext⟩
          · rw [hclosing] at helse
            cases helse
          · exact (hkind next hmem' _ hnext).1 helse
      · simp [hclose, heof] at hno
    · intro after hposition
      exact whenever_declines (by simp [hposition, hclosing])
  unfold blockOf
  refine .position (.advance (by simp [hopening]) (hmany.bind fun trees after htrees => ?_))
  rw [← htrees.position] at hclosing
  refine .expectTaken hclosing (by decide) (.rangeFrom (.pure ⟨?_, ?_, htrees.quiet⟩))
  · exact stmtTerms_of_forall₂ htrees.reads
  · simp only [StmtTerm.signs, List.length_cons, List.length_append, List.length_nil,
      htrees.position]
    omega

theorem ifElse_back {term : Term} {whenTrue : StmtTerm} {whenFalse? : Option StmtTerm}
    (hcondition : term.WellFormed) (htrue : whenTrue.WellFormed)
    (hfalse : ∀ whenFalse ∈ whenFalse?, whenTrue.endsOpen = false ∧ whenFalse.WellFormed)
    (hshows : input.sentence.Shows word state.position
      (.fixed .ifKw :: (term.conditionSigns ++ (whenTrue.signs ++
        whenFalse?.toList.flatMap fun whenFalse => .fixed .elseKw :: whenFalse.signs))))
    (hstop : stop = state.position + 1 + term.conditionSigns.length + whenTrue.signs.length +
      (whenFalse?.toList.flatMap fun whenFalse => .fixed .elseKw :: whenFalse.signs).length)
    (hn : input.sentence.left state.position ≤ n + 1)
    (hopen : (∀ whenFalse ∈ whenFalse?, whenFalse.endsOpen = true) →
      input.sentence.kindAt stop ≠ .elseKw) :
    Ends (ifElse nested) input state
      (Back (fun got => got.term? word =
        some (whenFalse?.elim (.ifThen term whenTrue) (.ifElse term whenTrue))) stop state) := by
  have hkeyword : input.sentence.kindAt state.position = .ifKw := hshows.kind
  have hsize := Sentence.lt_size_of_kindAt (by rw [hkeyword]; decide)
  obtain ⟨hfront, hbranches⟩ := Sentence.shows_append.mp hshows.tail
  obtain ⟨hfirst, hsecond⟩ := Sentence.shows_append.mp hbranches
  unfold Sentence.left at hn
  unfold ifElse
  refine .position (.advance (by simp [hkeyword]) ?_)
  refine (condition_back hcondition hfront).bind fun condition after hafter => ?_
  have hposition : after.position = state.position + 1 + term.conditionSigns.length :=
    hafter.position
  rw [← hposition] at hfirst hsecond hstop
  refine (hnested whenTrue after _ htrue hfirst rfl (by unfold Sentence.left; omega)
    fun hends => ?_).bind fun tree next htree => ?_
  · cases whenFalse? with
    | none => exact hstop ▸ hopen nofun
    | some whenFalse =>
        rw [(hfalse whenFalse rfl).1] at hends
        cases hends
  have hquiet : Quiet state next := Quiet.trans hafter.quiet htree.quiet
  rw [← htree.position] at hsecond hstop
  cases whenFalse? with
  | none =>
      obtain rfl : stop = next.position := hstop
      refine (eat_declines (hopen nofun)).bind (.pureBind (.rangeFrom (.pure ⟨?_, rfl, hquiet⟩)))
      simp [hafter.reads, htree.reads]
  | some whenFalse =>
      rw [Option.toList_some, List.flatMap_singleton] at hsecond hstop
      have helse : input.sentence.kindAt next.position = .elseKw := hsecond.kind
      have hlast : Ends nested input { next with position := next.position + 1 }
          (Back (fun got => got.term? word = some whenFalse) stop
            { next with position := next.position + 1 }) := by
        refine hnested whenFalse _ stop (hfalse whenFalse rfl).2 hsecond.tail ?_ ?_ fun hends => ?_
        · rw [hstop, List.length_cons]
          dsimp only
          omega
        · have hforward := htree.position
          unfold Sentence.left
          dsimp only
          omega
        · refine hopen fun other hother => ?_
          cases hother
          exact hends
      have hgiven : Ends (some <$> nested) input { next with position := next.position + 1 }
          (Given (Back (fun got => got.term? word = some whenFalse) stop
            { next with position := next.position + 1 })) :=
        .map (hlast.imp fun got last h => ⟨got, rfl, h⟩)
      refine .eatTaken helse (by decide) (hgiven.bind ?_)
      rintro _ last ⟨got, rfl, hgot⟩
      refine .rangeFrom (.pure ⟨?_, hgot.position, hquiet.trans hgot.quiet⟩)
      simp [hafter.reads, htree.reads, hgot.reads]

theorem whileLoop_back {term : Term} {body : StmtTerm} (hcondition : term.WellFormed)
    (hbody : body.WellFormed)
    (hshows : input.sentence.Shows word state.position (StmtTerm.whileLoop term body).signs)
    (hstop : stop = state.position + (StmtTerm.whileLoop term body).signs.length)
    (hn : input.sentence.left state.position ≤ n + 1)
    (hopen : body.endsOpen = true → input.sentence.kindAt stop ≠ .elseKw) :
    Ends (whileLoop nested) input state
      (Back (fun got => got.term? word = some (.whileLoop term body)) stop state) := by
  have hkeyword : input.sentence.kindAt state.position = .whileKw := hshows.kind
  have hsize := Sentence.lt_size_of_kindAt (by rw [hkeyword]; decide)
  obtain ⟨hfront, hback⟩ := Sentence.shows_append.mp hshows.tail
  have hlength : stop = state.position + 1 + term.conditionSigns.length + body.signs.length := by
    simp only [hstop, StmtTerm.signs, List.length_cons, List.length_append]
    omega
  unfold Sentence.left at hn
  unfold whileLoop
  refine .position (.advance (by simp [hkeyword]) ?_)
  refine (condition_back hcondition hfront).bind fun condition after hafter => ?_
  have hposition : after.position = state.position + 1 + term.conditionSigns.length :=
    hafter.position
  rw [← hposition] at hback hlength
  refine (hnested body after stop hbody hback hlength (by unfold Sentence.left; omega) hopen).bind
    fun tree last htree => ?_
  refine .rangeFrom (.pure ⟨?_, htree.position, Quiet.trans hafter.quiet htree.quiet⟩)
  simp [hafter.reads, htree.reads]

theorem stmtStep_restores : RestoresStmts (n + 1) input word (stmtStep nested) := by
  rintro stmt state stop hterm hshows hstop hn hopen
  have hsemicolon {front : List Sign} (hfront : front ++ [.fixed .semicolon] = stmt.signs) :
      input.sentence.Shows word state.position front ∧
        input.sentence.kindAt (state.position + front.length) = .semicolon ∧
        stop = state.position + front.length + 1 := by
    rw [← hfront] at hshows hstop
    obtain ⟨hinner, hback⟩ := Sentence.shows_append.mp hshows
    exact ⟨hinner, hback.kind, by simpa [Nat.add_assoc] using hstop⟩
  unfold stmtStep
  refine .kind fun kind hkind => ?_
  cases hterm with
  | empty =>
      obtain rfl : kind = .semicolon := hkind.symm.trans hshows.kind
      exact .advance (by simp [hkind]) (.pure ⟨rfl, hstop.symm, .of_findings rfl⟩)
  | block hstmts =>
      obtain rfl : kind = .lBrace := hkind.symm.trans hshows.kind
      refine (blockOf_back hnested hstmts hshows hn).bind fun got after hgot => .pure ?_
      exact ⟨by simp [hgot.reads], hgot.position.trans hstop.symm, hgot.quiet⟩
  | @declaration isConst type terms htype htokens hsome hterms =>
      have hback := declarationStmt_back htype hsome hterms hshows
      rw [← hstop] at hback
      cases isConst with
      | true =>
          obtain rfl : kind = .constKw := hkind.symm.trans hshows.kind
          exact hback
      | false =>
          -- Without `const` a declaration is told by its type and its name.
          have hbehind : input.sentence.Shows word state.position
              (type.signs ++ (declaratorSigns terms ++ [Sign.fixed .semicolon])) := hshows
          have hhead := htype.head (Sentence.shows_append.mp hbehind).1.tells
          obtain ⟨-, -, htypeStart, hexprStart⟩ := typeHead_ne hhead
          rw [hkind] at htypeStart hexprStart
          rw [TokenSet.contains_typeStart] at htypeStart
          split
          case h_10 =>
            refine .ite (fun hno => by rw [hexprStart] at hno; cases hno) fun _ => ?_
            refine (startsDeclaration_holds htype hsome hbehind).bind ?_
            rintro _ _ ⟨rfl, rfl⟩
            exact hback
          all_goals exact absurd htypeStart (by decide)
  | @expression term hterm =>
      obtain ⟨hinner, hend, hlast⟩ := hsemicolon rfl
      obtain ⟨last, hleads⟩ := hterm.leadsIn hinner
      have hback := expressionStmt_back hinner hend hterm rfl
      rw [← hlast] at hback
      have hstart := hterm.head hinner
      rw [hkind] at hstart
      split
      case h_10 =>
        refine .ite (fun hno => ?_) fun _ => ?_
        · rw [expressionStart_of_leadsIn hstart] at hno
          cases hno
        · refine (startsDeclaration_declines hleads).bind ?_
          rintro _ _ ⟨rfl, rfl⟩
          exact hback
      all_goals cases hstart
  | returnStmt hvalue =>
      obtain rfl : kind = .returnKw := hkind.symm.trans hshows.kind
      obtain ⟨hfront, hend, rfl⟩ := hsemicolon (List.cons_append ..)
      exact returnStmt_back hfront hend hvalue rfl
  | throwStmt hvalue =>
      obtain rfl : kind = .throwKw := hkind.symm.trans hshows.kind
      obtain ⟨hfront, hend, rfl⟩ := hsemicolon (List.cons_append ..)
      exact throwStmt_back hfront hend hvalue rfl
  | @ifThen term whenTrue hcondition htrue =>
      obtain rfl : kind = .ifKw := hkind.symm.trans hshows.kind
      have hbranches : StmtTerm.signs (.ifThen term whenTrue) = .fixed .ifKw ::
          (term.conditionSigns ++ (whenTrue.signs ++
            (none : Option StmtTerm).toList.flatMap fun whenFalse =>
              .fixed .elseKw :: whenFalse.signs)) := by
        simp [StmtTerm.signs]
      rw [hbranches] at hshows hstop
      refine ifElse_back hnested hcondition htrue ?_ hshows ?_ hn fun _ => hopen rfl
      · rintro _ ⟨⟩
      · simp only [hstop, List.length_cons, List.length_append]
        omega
  | @ifElse term whenTrue whenFalse hcondition hclosed htrue hfalse =>
      obtain rfl : kind = .ifKw := hkind.symm.trans hshows.kind
      have hbranches : StmtTerm.signs (.ifElse term whenTrue whenFalse) = .fixed .ifKw ::
          (term.conditionSigns ++ (whenTrue.signs ++
            (some whenFalse).toList.flatMap fun whenFalse =>
              .fixed .elseKw :: whenFalse.signs)) := by
        simp [StmtTerm.signs]
      rw [hbranches] at hshows hstop
      refine ifElse_back hnested hcondition htrue ?_ hshows ?_ hn ?_
      · rintro _ ⟨⟩
        exact ⟨hclosed, hfalse⟩
      · simp only [hstop, List.length_cons, List.length_append]
        omega
      · exact fun hall => hopen (hall whenFalse rfl)
  | whileLoop hcondition hbody =>
      obtain rfl : kind = .whileKw := hkind.symm.trans hshows.kind
      exact whileLoop_back hnested hcondition hbody hshows hstop hn hopen

end Nested

theorem stmtWithin_restores (n : Nat) : RestoresStmts n input word (stmtWithin n) := by
  induction n with
  | zero =>
      intro stmt state stop hterm hshows _ hn _
      obtain ⟨-, -, heof⟩ := TokenKind.ne_of_not_startsNoStmt (hterm.head hshows)
      have hlt := Sentence.lt_size_of_kindAt heof
      unfold Sentence.left at hn
      omega
  | succ n ih => exact stmtStep_restores ih

theorem stmt_restores (n : Nat) : RestoresStmts n input word stmt :=
  fun stmt state stop hterm hshows hstop _ hopen =>
    .left (stmtWithin_restores _ stmt state stop hterm hshows hstop (Nat.le_refl _) hopen)

theorem block_back {stmts : List StmtTerm} (hstmts : ∀ stmt ∈ stmts, stmt.WellFormed)
    (hshows : input.sentence.Shows word state.position (StmtTerm.block stmts).signs) :
    Ends block input state
      (Back (fun got => got.terms? word = some stmts)
        (state.position + (StmtTerm.block stmts).signs.length) state) :=
  blockOf_back (stmt_restores (input.sentence.left state.position)) hstmts hshows
    (Nat.le_succ _)

end TolerantSyntax.Parse
