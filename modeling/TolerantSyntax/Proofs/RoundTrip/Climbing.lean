import TolerantSyntax.Proofs.RoundTrip.Suffix

/-!
# Terms are read back at their level

A loop starts with the leftmost operand, so the induction along the front of a term says what
the loop does behind each operand: whether the next operator belongs to the term or to one
around it is told by its level.
-/

namespace TolerantSyntax.Parse

variable {n : Nat} {input : Input} {word : Nat → Spelling} {state : ParseState}
  {nested : ExprLevel → Parse Expr} {term : Term} {start stop : Nat}

theorem operator_endsSuffix {op : BinaryOp} {rest : List Sign}
    (hshows : input.sentence.Shows word start (op.signs ++ rest))
    (hrest : ∃ last, input.sentence.LeadsIn (start + op.signs.length) last) :
    input.sentence.kindAt start ≠ .eof ∧ input.sentence.EndsSuffix start := by
  obtain ⟨sign, more, hsigns, hkind, hlt⟩ := op.exists_signs
  rw [hsigns, List.cons_append] at hshows
  rw [← hshows.kind] at hkind hlt
  refine ⟨fun heof => hkind (by rw [heof]; rfl), ?_, fun h => ?_⟩
  · generalize input.sentence.kindAt start = kind at hkind
    cases kind <;> first | rfl | exact absurd rfl hkind
  · obtain rfl := hlt h
    exact hrest

section Nested

variable (hnested : Restores n input word nested)
include hnested

theorem infixStep?_takes {op : BinaryOp} {left : Expr} {right : Term} {first least : Nat}
    (hright : right.WellFormed) (htight : op.rightLevel ≤ right.level)
    (hleast : least ≤ op.precedence)
    (hshows : input.sentence.Shows word state.position (op.signs ++ right.signs))
    (hn : input.sentence.left (state.position + 1) ≤ n)
    (hstop : stop = state.position + (op.signs ++ right.signs).length)
    (hstops : (ExprLevel.binary op.rightLevel).Stops input.sentence stop) :
    Ends (infixStep? nested first least left) input state fun grown? after =>
      ∃ info value, grown? = some (.binary info op left value) ∧
        ReadBack word right stop state value after := by
  obtain ⟨hop, hbehind⟩ := Sentence.shows_append.mp hshows
  obtain ⟨last, hleads⟩ := hright.leadsIn hbehind
  have hbetween := op.infixAt?_of_shows hop
    (TokenKind.ne_of_leadsIn (hleads.kind _ (Nat.le_refl _) hleads.le) (by decide))
  have hlength : stop = state.position + op.width + right.signs.length := by
    rw [hstop, List.length_append, op.length_signs, Nat.add_assoc]
  have hwidth := InfixOp.width_pos (.binary op)
  rw [op.length_signs] at hbehind
  unfold infixStep?
  refine .ask fun op? hop? => ?_
  obtain rfl : op? = some (.binary op) := hop?.symm.trans hbetween
  refine .ite (fun hloose => absurd hleast (Nat.not_le.mpr hloose)) fun _ => ?_
  have hmove : Ends (moveTo fun _ index => index + (InfixOp.binary op).width) input state
      fun _ after => after = { state with position := state.position + op.width } := rfl
  refine hmove.bind ?_
  rintro _ _ rfl
  have hadmits : (ExprLevel.binary op.rightLevel).Admits right :=
    ⟨Nat.le_trans op.rightLevel_pos htight, htight⟩
  refine (hnested _ right _ _ stop hright hadmits hbehind rfl hlength ?_ hstops).bind ?_
  · simp only [InfixOp.width] at hwidth
    unfold Sentence.left at hn ⊢
    omega
  · intro value after hvalue
    exact ⟨_, value, rfl, hvalue.term, hvalue.position, hvalue.findings⟩

theorem infixStep?_back {op : BinaryOp} {left right : Term} {before : ParseState} {expr : Expr}
    {first least : Nat} (hexpr : ReadBack word left start before expr state)
    (hright : right.WellFormed) (htight : op.rightLevel ≤ right.level)
    (hleast : least ≤ op.precedence)
    (hshows : input.sentence.Shows word start (op.signs ++ right.signs))
    (hn : input.sentence.left (start + 1) ≤ n)
    (hstop : stop = start + (op.signs ++ right.signs).length)
    (hstops : (ExprLevel.binary op.rightLevel).Stops input.sentence stop) :
    Ends (infixStep? nested first least expr) input state
      (Grown word (.binary op left right) stop before) := by
  obtain ⟨hterm, rfl, hfindings⟩ := hexpr
  refine (infixStep?_takes hnested hright htight hleast hshows hn hstop hstops).imp ?_
  rintro _ after ⟨info, value, rfl, hvalue⟩
  exact ⟨_, rfl, by simp [hterm, hvalue.term], hvalue.position,
    hvalue.findings.trans hfindings⟩

/-- Operators are read one by one, each behind its left operand.  What follows the term is
either too loose for the level or takes the term as its left operand: in both cases it is too
loose for the right operand of the last operator. -/
theorem binary_leads {least : Nat} (hterm : term.WellFormed) (hsome : 1 ≤ term.level)
    (hlevel : least ≤ term.level)
    (hshows : input.sentence.Shows word state.position term.signs)
    (hn : input.sentence.left state.position ≤ n + 1)
    (hstops : input.sentence.EndsSuffix (state.position + term.signs.length))
    (hnext : ∀ op, input.sentence.infixAt? (state.position + term.signs.length) = some op →
      op.precedence < least ∨ op.leftLevel ≤ term.level) :
    LeadsTo (binary nested least) (infixStep? nested state.position least) input word term
      state := by
  have hfirst : ∀ {term : Term}, term.WellFormed → 12 ≤ term.level →
      input.sentence.Shows word state.position term.signs →
      input.sentence.EndsSuffix (state.position + term.signs.length) →
      LeadsTo (binary nested least) (infixStep? nested state.position least) input word term
        state := fun hterm htight hshows hstops post hpost =>
    .position (LeadsTo.of_first (unary_back hnested hterm htight hshows hn hstops) post hpost)
  have hwhole := hterm
  induction hterm with
  | @binary op left right htight htight' hleft hright ih =>
      obtain ⟨hfront, hback⟩ := Sentence.shows_append.mp hshows
      have hlength : (Term.binary op left right).signs.length =
          left.signs.length + (op.signs ++ right.signs).length := by
        rw [Term.signs, List.length_append]
      have hsigns : 0 < op.signs.length := by
        rw [op.length_signs]
        exact InfixOp.width_pos (.binary op)
      obtain ⟨hop, hbehind⟩ := Sentence.shows_append.mp hback
      have hleads := hright.leadsIn hbehind
      obtain ⟨hkind, hsuffix⟩ := operator_endsSuffix hback hleads
      have hbetween : input.sentence.infixAt? (state.position + left.signs.length) =
          some (.binary op) := by
        obtain ⟨last, hlast⟩ := hleads
        exact op.infixAt?_of_shows hop
          (TokenKind.ne_of_leadsIn (hlast.kind _ (Nat.le_refl _) hlast.le) (by decide))
      have hprecedence := op.precedence_le_leftLevel
      have hpos := op.precedence_pos
      simp only [Term.level] at hlevel hnext
      have hloop := ih (by omega) (by omega) hfront hsuffix (fun next h => by
        rw [hbetween] at h
        cases h
        exact .inr htight) hleft
      refine hloop.grow hkind (by rw [hlength, List.length_append]; omega)
        fun expr after hexpr => ?_
      refine infixStep?_back hnested hexpr hright htight' hlevel hback ?_ ?_ ⟨hstops, ?_⟩
      · unfold Sentence.left at hn ⊢
        omega
      · rw [hlength, Nat.add_assoc]
      · intro next h
        have hright := op.precedence_le_rightLevel
        rcases hnext next h with hloose | htakes
        · omega
        · exact InfixOp.leftLevel_le_iff.mp htakes
  | conditional | assign => simp [Term.level] at hsome
  | literal | this | parenthesized | memberAccess | invocation | elementAccess | step | unary =>
      exact hfirst hwhole (by simp [Term.level]) hshows hstops

theorem binary_back {least : Nat} (hterm : term.WellFormed) (hsome : 1 ≤ term.level)
    (hlevel : least ≤ term.level)
    (hshows : input.sentence.Shows word state.position term.signs)
    (hn : input.sentence.left state.position ≤ n + 1)
    (hstops : (ExprLevel.binary least).Stops input.sentence
      (state.position + term.signs.length)) :
    Ends (binary nested least) input state
      (ReadBack word term (state.position + term.signs.length) state) := by
  obtain ⟨hsuffix, hnext⟩ := hstops
  refine (binary_leads hnested hterm hsome hlevel hshows hn hsuffix
    fun op hop => .inl (hnext op hop)).ends fun expr after hexpr => ?_
  rw [← hexpr.position] at hnext
  unfold infixStep?
  refine .ask fun op? hop => ?_
  cases op? with
  | none => exact .pure ⟨rfl, rfl⟩
  | some op => exact .ite (fun _ => .pure ⟨rfl, rfl⟩) fun htight => absurd (hnext op hop) htight

/-! ## Conditionals and assignments -/

section Front

variable {reads : Expr → List Finding → Prop}

omit hnested in
theorem conditional_plain (hfirst : Ends (binary nested 1) input state (ReadTo reads stop))
    (hquestion : input.sentence.kindAt stop ≠ .question) :
    Ends (conditional nested) input state (ReadTo reads stop) := by
  unfold conditional
  refine .position (hfirst.bind fun expr after hexpr => ?_)
  rw [← hexpr.position] at hquestion
  exact (eat_declines hquestion).bind (.pure hexpr)

omit hnested in
theorem assignment_plain (hfirst : Ends (conditional nested) input state (ReadTo reads stop))
    (hop : AssignOp.ofKind? (input.sentence.kindAt stop) = none) :
    Ends (assignment nested) input state (ReadTo reads stop) := by
  unfold assignment
  refine .position (hfirst.bind fun expr after hexpr => .kind fun kind hkind => ?_)
  rw [← hkind, hexpr.position, hop]
  exact .pure hexpr

theorem conditional_takes {whenTrue whenFalse : Term} (htrue : whenTrue.WellFormed)
    (hfalse : whenFalse.WellFormed)
    (hfirst : Ends (binary nested 1) input state (ReadTo reads start))
    (hshows : input.sentence.Shows word start
      (.fixed .question :: (whenTrue.signs ++ .fixed .colon :: whenFalse.signs)))
    (hn : input.sentence.left start ≤ n + 1)
    (hstop : stop = start + 1 + whenTrue.signs.length + 1 + whenFalse.signs.length)
    (hcloses : (input.sentence.kindAt stop).closesTerm = true) :
    Ends (conditional nested) input state
      (ReadTo (fun expr noted => ∃ info condition value other,
        expr = .conditional info condition value other ∧ reads condition noted ∧
          value.term? word = some whenTrue ∧ other.term? word = some whenFalse) stop) := by
  obtain ⟨hmiddle, hcolon⟩ := Sentence.shows_append.mp hshows.tail
  have hkind : input.sentence.kindAt start = .question := hshows.kind
  have hkind' : input.sentence.kindAt _ = .colon := hcolon.kind
  have hlt := Sentence.lt_size_of_kindAt (by rw [hkind]; decide)
  unfold Sentence.left at hn
  unfold conditional
  refine .position (hfirst.bind fun condition after₁ hcondition => ?_)
  obtain ⟨hreads, rfl⟩ := hcondition
  refine .eatTaken hkind (by decide) ?_
  refine (hnested .full whenTrue _ _ _ htrue trivial hmiddle rfl rfl
    (by unfold Sentence.left; omega)
    (by rw [ExprLevel.Stops, hkind']; rfl)).bind fun value after₂ hvalue => ?_
  rw [← hvalue.position] at hkind' hcolon hstop
  refine .expectTaken hkind' (by decide) ?_
  refine (hnested .full whenFalse _ _ stop hfalse trivial hcolon.tail rfl hstop
    (by have := hvalue.position; unfold Sentence.left; omega)
    hcloses).bind fun other after₃ hother => ?_
  refine ⟨⟨_, condition, value, other, rfl, ?_, hvalue.term, hother.term⟩, hother.position⟩
  have hnoted : after₃.findings = after₁.findings := hother.findings.trans hvalue.findings
  exact hnoted ▸ hreads

theorem assignment_takes {op : AssignOp} {value : Term} (hvalue : value.WellFormed)
    (hfirst : Ends (conditional nested) input state (ReadTo reads start))
    (hshows : input.sentence.Shows word start (.fixed op.symbol :: value.signs))
    (hn : input.sentence.left start ≤ n + 1) (hstop : stop = start + 1 + value.signs.length)
    (hcloses : (input.sentence.kindAt stop).closesTerm = true) :
    Ends (assignment nested) input state
      (ReadTo (fun expr noted => ∃ info target right, expr = .assign info op target right ∧
        reads target noted ∧ right.term? word = some value) stop) := by
  have hkind : input.sentence.kindAt start = op.symbol := hshows.kind
  have hop : AssignOp.ofKind? op.symbol = some op ∧ op.symbol ≠ .eof := by
    cases op <;> decide
  have hlt := Sentence.lt_size_of_kindAt (by rw [hkind]; exact hop.2)
  unfold Sentence.left at hn
  unfold assignment
  refine .position (hfirst.bind fun target after₁ htarget => ?_)
  obtain ⟨hreads, rfl⟩ := htarget
  refine .kind fun kind hkind' => ?_
  obtain rfl : kind = op.symbol := hkind'.symm.trans hkind
  rw [hop.1]
  refine .advance (by rw [hkind]; exact hop.2) ?_
  refine (hnested .full value _ _ stop hvalue trivial hshows.tail rfl hstop
    (by unfold Sentence.left; omega) hcloses).bind fun right after₂ hright => ?_
  refine ⟨⟨_, target, right, rfl, ?_, hright.term⟩, hright.position⟩
  have hnoted : after₂.findings = after₁.findings := hright.findings
  exact hnoted ▸ hreads

end Front

theorem operation_back (hterm : term.WellFormed) (hsome : 1 ≤ term.level)
    (hshows : input.sentence.Shows word state.position term.signs)
    (hn : input.sentence.left state.position ≤ n + 1)
    (hstops : (input.sentence.kindAt (state.position + term.signs.length)).continuesTerm = false) :
    Ends (binary nested 1) input state
      (ReadTo (fun expr noted => expr.term? word = some term ∧ noted = state.findings)
        (state.position + term.signs.length)) :=
  (binary_back hnested hterm hsome hsome hshows hn (ExprLevel.stops_binary hstops 1)).imp
    fun _ _ hexpr => ⟨⟨hexpr.term, hexpr.findings⟩, hexpr.position⟩

theorem conditional_back {condition whenTrue whenFalse : Term}
    (hterm : (Term.conditional condition whenTrue whenFalse).WellFormed)
    (hshows : input.sentence.Shows word state.position
      (Term.conditional condition whenTrue whenFalse).signs)
    (hn : input.sentence.left state.position ≤ n + 1)
    (hstop : stop = state.position + (Term.conditional condition whenTrue whenFalse).signs.length)
    (hcloses : (input.sentence.kindAt stop).closesTerm = true) :
    Ends (conditional nested) input state
      (ReadTo (fun expr noted =>
        expr.term? word = some (.conditional condition whenTrue whenFalse) ∧
          noted = state.findings) stop) := by
  cases hterm with
  | conditional htight hcondition htrue hfalse =>
  obtain ⟨hfront, hback⟩ := Sentence.shows_append.mp hshows
  have hkind : input.sentence.kindAt _ = .question := hback.kind
  refine (conditional_takes hnested htrue hfalse
    (operation_back hnested hcondition htight hfront hn (by rw [hkind]; rfl)) hback
    (by unfold Sentence.left at hn ⊢; omega) ?_ hcloses).imp ?_
  · simp only [Term.signs, List.length_append, List.length_cons] at hstop
    omega
  · rintro _ after ⟨⟨info, first, value, other, rfl, ⟨hfirst, hnoted⟩, hvalue, hother⟩,
      hposition⟩
    exact ⟨⟨by simp [hfirst, hvalue, hother], hnoted⟩, hposition⟩

theorem assignment_back {op : AssignOp} {target value : Term}
    (hterm : (Term.assign op target value).WellFormed)
    (hshows : input.sentence.Shows word state.position (Term.assign op target value).signs)
    (hn : input.sentence.left state.position ≤ n + 1)
    (hstop : stop = state.position + (Term.assign op target value).signs.length)
    (hcloses : (input.sentence.kindAt stop).closesTerm = true) :
    Ends (assignment nested) input state
      (ReadTo (fun expr noted =>
        expr.term? word = some (.assign op target value) ∧ noted = state.findings) stop) := by
  cases hterm with
  | assign htight htarget hvalue =>
  obtain ⟨hfront, hback⟩ := Sentence.shows_append.mp hshows
  have hkind : input.sentence.kindAt _ = op.symbol := hback.kind
  obtain ⟨hends, hquestion⟩ := AssignOp.symbol_ends op
  refine (assignment_takes hnested hvalue (conditional_plain
    (operation_back hnested htarget htight hfront hn (by rw [hkind]; exact hends))
    (by rw [hkind]; exact hquestion)) hback
    (by unfold Sentence.left at hn ⊢; omega) ?_ hcloses).imp ?_
  · simp only [Term.signs, List.length_append, List.length_cons] at hstop
    omega
  · rintro _ after ⟨⟨info, first, right, rfl, ⟨hfirst, hnoted⟩, hright⟩, hposition⟩
    exact ⟨⟨by simp [hfirst, hright], hnoted⟩, hposition⟩

theorem full_back (hterm : term.WellFormed)
    (hshows : input.sentence.Shows word state.position term.signs)
    (hn : input.sentence.left state.position ≤ n + 1)
    (hstop : stop = state.position + term.signs.length)
    (hcloses : (input.sentence.kindAt stop).closesTerm = true) :
    Ends (assignment nested) input state (ReadBack word term stop state) := by
  obtain ⟨hoperation, hquestion, hassign⟩ := TokenKind.closesTerm_ends hcloses
  have hread : Ends (assignment nested) input state
      (ReadTo (fun expr noted => expr.term? word = some term ∧ noted = state.findings) stop) := by
    by_cases hsome : 1 ≤ term.level
    · subst hstop
      exact assignment_plain (conditional_plain
        (operation_back hnested hterm hsome hshows hn hoperation) hquestion) hassign
    · cases hterm with
      | conditional htight hcondition htrue hfalse =>
          exact assignment_plain (conditional_back hnested
            (.conditional htight hcondition htrue hfalse) hshows hn hstop hcloses) hassign
      | assign htight htarget hvalue =>
          exact assignment_back hnested (.assign htight htarget hvalue) hshows hn hstop hcloses
      | @binary op => exact absurd op.precedence_pos hsome
      | _ => simp [Term.level] at hsome
  exact hread.imp fun _ _ h => ⟨h.reads.1, h.position, h.reads.2⟩

end Nested

theorem exprStep_restores (hnested : Restores n input word nested) :
    Restores (n + 1) input word (exprStep nested) := by
  rintro level term state _ stop hterm hadmits hshows rfl rfl hn hstops
  cases level with
  | full => exact full_back hnested hterm hshows hn rfl hstops
  | binary least => exact binary_back hnested hterm hadmits.1 hadmits.2 hshows hn hstops
  | unary => exact unary_back hnested hterm hadmits hshows hn hstops
  | initializer => exact hadmits.elim

theorem exprWithin_restores (n : Nat) : Restores n input word (exprWithin n) := by
  induction n with
  | zero =>
      intro level term state start stop hterm _ hshows _ _ hn _
      obtain ⟨last, hleads⟩ := hterm.leadsIn hshows
      have hlt := Sentence.lt_size_of_kindAt
        (TokenKind.ne_of_leadsIn (hleads.kind start (Nat.le_refl _) hleads.le) (by decide))
      unfold Sentence.left at hn
      omega
  | succ n ih => exact exprStep_restores ih

/-- In front of what ends an expression every term is read back. -/
theorem expr_back (hterm : term.WellFormed)
    (hshows : input.sentence.Shows word state.position term.signs)
    (hcloses : (input.sentence.kindAt (state.position + term.signs.length)).closesTerm = true) :
    Ends expr input state (ReadBack word term (state.position + term.signs.length) state) :=
  .left (exprWithin_restores _ .full term state _ _ hterm trivial hshows rfl rfl (Nat.le_refl _)
    hcloses)

theorem variableValue_back (hterm : term.WellFormed)
    (hshows : input.sentence.Shows word state.position term.signs)
    (hcloses : (input.sentence.kindAt (state.position + term.signs.length)).closesTerm = true) :
    Ends variableValue input state
      (ReadBack word term (state.position + term.signs.length) state) := by
  obtain ⟨stop, hleads⟩ := hterm.leadsIn hshows
  have hbrace : input.sentence.kindAt state.position ≠ .lBrace :=
    TokenKind.ne_of_leadsIn (hleads.kind _ (Nat.le_refl _) hleads.le) (by decide)
  unfold variableValue initializerElement
  refine .ask fun answer hanswer => ?_
  obtain rfl : answer = false := hanswer.symm.trans (by simpa using hbrace)
  exact expr_back hterm hshows hcloses

end TolerantSyntax.Parse
