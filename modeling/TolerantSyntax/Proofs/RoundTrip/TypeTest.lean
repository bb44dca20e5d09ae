import TolerantSyntax.Proofs.Acceptance
import TolerantSyntax.Proofs.RoundTrip.Operations
import TolerantSyntax.Proofs.RoundTrip.TypeReading
import TolerantSyntax.Proofs.RoundTrip.Unended

/-!
# Type tests as conditions

The right side of `is` and `as` is a type, and a type takes every `?` that it can.  So a test in
front of a `?` is a condition only when its type is nullable itself.  With any other type the
`?` makes it nullable, the stars behind it make it a pointer, and what then goes on ends in
front of the `:` at the latest, where a semicolon is due.
-/

namespace TolerantSyntax

inductive TypeTest where
  | isTest
  | asTest
deriving DecidableEq

namespace TypeTest

def keyword : TypeTest → TokenKind
  | isTest => .isKw
  | asTest => .asKw

def operator : TypeTest → InfixOp
  | isTest => .isTest
  | asTest => .asTest

def expr : TypeTest → ExprInfo → Expr → TypeSyntax → Expr
  | isTest => .isType
  | asTest => .asType

end TypeTest

/-- `operand is type ? whenTrue : whenFalse` -/
structure TestTerm where
  test : TypeTest
  operand : Term
  type : TypeTerm
  whenTrue : Term
  whenFalse : Term

namespace TestTerm

structure WellFormed (term : TestTerm) : Prop where
  tight : 8 ≤ term.operand.level
  operand : term.operand.WellFormed
  type : term.type.WellFormed
  tokens : ∀ sign ∈ term.type.signs, Sign.IsToken sign.kind sign.text
  whenTrue : term.whenTrue.WellFormed
  whenFalse : term.whenFalse.WellFormed

def branchSigns (term : TestTerm) : List Sign :=
  .fixed .question :: (term.whenTrue.signs ++ .fixed .colon :: term.whenFalse.signs)

def signs (term : TestTerm) : List Sign :=
  term.operand.signs ++ .fixed term.test.keyword :: (term.type.signs ++ term.branchSigns)

def inField (term : TestTerm) : String :=
  "class C \x7b object f =" ++ String.join (term.signs.map (·.written)) ++ " ; \x7d"

theorem WellFormed.spaced {term : TestTerm} (h : term.WellFormed) : Sign.Spaced term.signs := by
  have hbranches : Sign.Spaced term.branchSigns :=
    .fixed rfl (h.whenTrue.spaced.append (.fixed rfl h.whenFalse.spaced))
  have htype : Sign.Spaced term.type.signs := .of_tokens h.tokens h.type.joined
  refine h.operand.spaced.append ?_
  cases hkeyword : term.test
  all_goals exact .fixed rfl (htype.append hbranches)

end TestTerm

/-- The conditional with a type test as its condition that an expression is. -/
def Expr.testTerm? (word : Nat → Spelling) : Expr → Option TestTerm
  | .conditional _ (.isType _ operand type) value other => do
      return ⟨.isTest, ← operand.term? word, ← type.term? word, ← value.term? word,
        ← other.term? word⟩
  | .conditional _ (.asType _ operand type) value other => do
      return ⟨.asTest, ← operand.term? word, ← type.term? word, ← value.term? word,
        ← other.term? word⟩
  | _ => none

theorem Expr.testTerm?_conditional {word : Nat → Spelling} {term : TestTerm} (info info' : ExprInfo)
    {operand value other : Expr} {type : TypeSyntax}
    (hoperand : operand.term? word = some term.operand) (htype : type.term? word = some term.type)
    (hvalue : value.term? word = some term.whenTrue)
    (hother : other.term? word = some term.whenFalse) :
    Expr.testTerm? word
      (.conditional info (term.test.expr info' operand type) value other) = some term := by
  obtain ⟨test, _, _, _, _⟩ := term
  cases test <;> simp_all [TypeTest.expr, testTerm?]

theorem Sentence.infixAt?_eq_none {sentence : Sentence} {index : Nat}
    (h : (sentence.kindAt index).continuesTerm = false) : sentence.infixAt? index = none := by
  cases hop : sentence.infixAt? index with
  | none => rfl
  | some op => exact absurd ((ExprLevel.stops_binary h 0).2 op hop) (Nat.not_lt_zero _)

theorem TokenKind.between_of_leadsIn {kind : TokenKind} (h : kind.leadsIn = true)
    (hstar : kind ≠ .star) :
    BinaryOp.ofKind? kind = none ∨
      ∃ (sign : UnaryOp) (op : BinaryOp), sign.symbol = kind ∧ op.signs = [.fixed kind] := by
  cases kind with
  | plus => exact .inr ⟨.plus, .add, rfl, rfl⟩
  | minus => exact .inr ⟨.neg, .sub, rfl, rfl⟩
  | amp => exact .inr ⟨.addressOf, .bitAnd, rfl, rfl⟩
  | star => exact absurd rfl hstar
  | _ => first | exact .inl rfl | cases h

theorem TokenKind.plain_of_leadsIn {kind : TokenKind} (h : kind.leadsIn = true) :
    kind ≠ .gt ∧ kind ≠ .isKw ∧ kind ≠ .asKw ∧ kind ≠ .question ∧ kind ≠ .comma ∧
      kind ≠ .semicolon ∧ AssignOp.ofKind? kind = none := by
  cases kind <;> first | decide | cases h

theorem TokenKind.endsType_of_leadsIn {kind : TokenKind} (h : kind.leadsIn = true)
    (hstar : kind ≠ .star) : kind.continuesType = false := by
  cases kind <;> first | rfl | exact absurd rfl hstar | cases h

namespace TypeTerm

/-- A type that is not nullable with the `?` behind it, and the stars behind that. -/
def taken (type : TypeTerm) : Nat → TypeTerm
  | 0 => .nullable type
  | stars + 1 => .pointer (type.taken stars)

theorem taken_signs (type : TypeTerm) (stars : Nat) :
    (type.taken stars).signs =
      type.signs ++ .fixed .question :: List.replicate stars (.fixed .star) := by
  induction stars with
  | zero => rfl
  | succ stars ih =>
      rw [taken, signs, ih, List.replicate_succ', List.append_assoc, List.cons_append]

theorem WellFormed.taken {type : TypeTerm} (h : type.WellFormed)
    (hsimple : type.isNullable = false) (stars : Nat) : (type.taken stars).WellFormed := by
  induction stars with
  | zero => exact .nullable hsimple h
  | succ stars ih => exact .pointer ih

end TypeTerm

namespace Parse

variable {n : Nat} {input : Input} {word : Nat → Spelling} {state : ParseState}
  {nested : ExprLevel → Parse Expr} {term : TestTerm} {type : TypeTerm} {start stop first : Nat}

/-! ## The test -/

theorem infixStep?_declines {expr : Expr} {least : Nat}
    (h : input.sentence.infixAt? state.position = none) :
    Declines (infixStep? nested first least expr) input state := by
  unfold infixStep?
  refine .ask fun op? hop => ?_
  obtain rfl : op? = none := hop.symm.trans h
  exact ⟨rfl, rfl⟩

theorem typeTest_takes (test : TypeTest) {expr : Expr}
    (hkind : input.sentence.kindAt state.position = test.keyword) (htype : type.WellFormed)
    (htells : input.sentence.Tells word (state.position + 1) type.signs)
    (hends : type.EndsAt input.sentence (state.position + 1 + type.signs.length)) :
    Ends (infixStep? nested first 1 expr) input state
      (Given fun grown after =>
        (∃ info tree, grown = test.expr info expr tree ∧ tree.term? word = some type) ∧
          after.position = state.position + 1 + type.signs.length ∧ Quiet state after) := by
  have hbetween : input.sentence.infixAt? state.position = some test.operator := by
    unfold Sentence.infixAt? Sentence.shiftAt
    cases test <;> simp [hkind, TypeTest.keyword, TypeTest.operator]
  have hback : Ends Parse.type input { state with position := state.position + 1 }
      (TypeBack word type (state.position + 1 + type.signs.length)
        { state with position := state.position + 1 }) :=
    type_back htype htells hends
  unfold infixStep?
  refine .ask fun op? hop => ?_
  obtain rfl : op? = some test.operator := hop.symm.trans hbetween
  have hmove : Ends (moveTo fun _ index => index + test.operator.width) input state
      fun _ after => after = { state with position := state.position + 1 } := by
    cases test <;> exact rfl
  refine .ite (fun hloose => ?_) fun _ => hmove.bind ?_
  · cases test <;> exact absurd hloose (by decide)
  · rintro _ _ rfl
    cases test
    all_goals
      refine hback.bind fun tree after htree => ?_
      exact ⟨_, rfl, ⟨_, tree, rfl, htree.reads⟩, htree.position, htree.quiet⟩

section Nested

variable (hnested : Restores n input word nested)
include hnested

/-- The operand and the test are read, whatever type there is behind the keyword. -/
theorem tested_leads (test : TypeTest) {operand : Term} (hterm : operand.WellFormed)
    (htight : 8 ≤ operand.level)
    (hshows : input.sentence.Shows word state.position operand.signs)
    (hkind : input.sentence.kindAt (state.position + operand.signs.length) = test.keyword)
    (htype : type.WellFormed)
    (htells : input.sentence.Tells word (state.position + operand.signs.length + 1) type.signs)
    (hends : type.EndsAt input.sentence
      (state.position + operand.signs.length + 1 + type.signs.length))
    (hn : input.sentence.left state.position ≤ n + 1) :
    Leads (binary nested 1) (infixStep? nested state.position 1) input state fun expr after =>
      (∃ info first tree, expr = test.expr info first tree ∧
        first.term? word = some operand ∧ tree.term? word = some type) ∧
        after.position = state.position + operand.signs.length + 1 + type.signs.length ∧
        Quiet state after := by
  have hkeyword : input.sentence.kindAt (state.position + operand.signs.length) ≠ .eof ∧
      input.sentence.EndsSuffix (state.position + operand.signs.length) := by
    rw [hkind]
    refine ⟨by cases test <;> decide, ⟨by rw [hkind]; cases test <;> rfl, fun hlt => ?_⟩⟩
    rw [hkind] at hlt
    cases test <;> cases hlt
  have hoperand : Leads (binary nested 1) (infixStep? nested state.position 1) input state
      (ReadBack word operand (state.position + operand.signs.length) state) :=
    binary_leads hnested hterm (by omega) (by omega) hshows hn hkeyword.2 fun op hop => by
      have hloose := InfixOp.leftLevel_le op
      unfold Sentence.infixAt? Sentence.shiftAt at hop
      cases test <;> simp [hkind, TypeTest.keyword] at hop <;> subst hop <;> exact .inr htight
  refine hoperand.grow (fun expr after h => by rw [h.position]; exact hkeyword.1)
    fun expr after h => ?_
  have hposition := h.position
  rw [← hposition] at hkind htells hends
  refine (typeTest_takes test hkind htype htells hends).imp ?_
  rintro _ last ⟨grown, rfl, ⟨info, tree, rfl, htree⟩, hlast, hquiet⟩
  refine ⟨_, rfl, ⟨⟨info, expr, tree, rfl, h.term, htree⟩, ?_, ?_⟩, by omega⟩
  · rw [hlast, hposition]
  · exact (Quiet.of_findings h.findings).trans hquiet

theorem tested_back (h : term.WellFormed) (hnullable : term.type.isNullable = true)
    (hshows : input.sentence.Shows word state.position term.signs)
    (hcloses : (input.sentence.kindAt (state.position + term.signs.length)).closesTerm = true)
    (hn : input.sentence.left state.position ≤ n + 1) :
    Ends (assignment nested) input state
      (ReadTo (fun expr noted => expr.testTerm? word = some term ∧
        Quiet state { state with findings := noted }) (state.position + term.signs.length)) := by
  obtain ⟨hoperand, hbehind⟩ := Sentence.shows_append.mp hshows
  obtain ⟨htype, hbranches⟩ := Sentence.shows_append.mp hbehind.tail
  have hquestion : input.sentence.kindAt
      (state.position + term.operand.signs.length + 1 + term.type.signs.length) = .question :=
    hbranches.kind
  have hends : term.type.EndsAt input.sentence
      (state.position + term.operand.signs.length + 1 + term.type.signs.length) :=
    ⟨fun _ => hnullable, by simp [hquestion], by simp [Sentence.rankAt, hquestion],
      by simp [hquestion], by simp [hquestion]⟩
  have hfirst : Ends (binary nested 1) input state
      (ReadTo (fun expr noted => (∃ info first tree, expr = term.test.expr info first tree ∧
        first.term? word = some term.operand ∧ tree.term? word = some term.type) ∧
          Quiet state { state with findings := noted })
        (state.position + term.operand.signs.length + 1 + term.type.signs.length)) := by
    refine ((tested_leads hnested term.test h.operand h.tight hoperand hbehind.kind h.type
      htype.tells hends hn).ends fun expr after hafter => infixStep?_declines ?_).imp ?_
    · rw [hafter.2.1]
      exact Sentence.infixAt?_eq_none (by rw [hquestion]; rfl)
    · exact fun expr after hafter => ⟨⟨hafter.1, hafter.2.2⟩, hafter.2.1⟩
  obtain ⟨hoperation, hcondition, hassign⟩ := TokenKind.closesTerm_ends hcloses
  refine (assignment_plain (conditional_takes hnested h.whenTrue h.whenFalse hfirst hbranches
    (by unfold Sentence.left at hn ⊢; omega) ?_ hcloses) hassign).imp ?_
  · simp only [TestTerm.signs, TestTerm.branchSigns, List.length_append, List.length_cons]
    omega
  · rintro _ after ⟨⟨info, _, value, other, rfl, ⟨⟨info', first, tree, rfl, hfirst, htree⟩,
      hquiet⟩, hvalue, hother⟩, hposition⟩
    exact ⟨⟨Expr.testTerm?_conditional info info' hfirst htree hvalue hother, hquiet⟩, hposition⟩

theorem behind_operation {op : BinaryOp} {inner : Term} (hinner : inner.WellFormed)
    (hsome : 1 ≤ inner.level)
    (hfirst : Leads (binary nested 1) (infixStep? nested first 1) input state fun _ after =>
      after.position = start)
    (hshows : input.sentence.Shows word start (op.signs ++ inner.signs))
    (hn : input.sentence.left (start + 1) ≤ n)
    (hstops : (input.sentence.kindAt
      (start + (op.signs ++ inner.signs).length)).continuesTerm = false) :
    Ends (binary nested 1) input state
      (ReadTo (fun _ _ => True) (start + (op.signs ++ inner.signs).length)) := by
  obtain ⟨level, hchain, -⟩ := hinner.operations hsome op
  have hnone := Sentence.infixAt?_eq_none hstops
  refine ((operations_leads hnested hchain hfirst hshows hn (ExprLevel.stops_binary hstops 1).1
    fun next h => ?_).ends fun expr after hafter => infixStep?_declines ?_).imp
      fun _ _ hafter => ⟨trivial, hafter⟩
  · rw [hnone] at h
    cases h
  · rwa [hafter]

theorem behind_sign {op : BinaryOp} {inner : Term} (hinner : inner.WellFormed)
    (hfirst : Leads (binary nested 1) (infixStep? nested first 1) input state fun _ after =>
      after.position = start)
    (hshows : input.sentence.Shows word start (op.signs ++ inner.signs))
    (hn : input.sentence.left (start + 1) ≤ n)
    (hstop : stop = start + (op.signs ++ inner.signs).length)
    (hcloses : (input.sentence.kindAt stop).closesTerm = true) :
    Ends (assignment nested) input state (ReadTo (fun _ _ => True) stop) := by
  obtain ⟨hoperation, hquestion, hassign⟩ := TokenKind.closesTerm_ends hcloses
  by_cases hsome : 1 ≤ inner.level
  · subst hstop
    exact assignment_plain (conditional_plain
      (behind_operation hnested hinner hsome hfirst hshows hn hoperation) hquestion) hassign
  · cases hinner with
    | @conditional condition whenTrue whenFalse htight hcondition htrue hfalse =>
        rw [Term.signs, ← List.append_assoc] at hshows hstop
        obtain ⟨hfront, hbranches⟩ := Sentence.shows_append.mp hshows
        have hkind : input.sentence.kindAt _ = .question := hbranches.kind
        refine assignment_plain ((conditional_takes hnested htrue hfalse
          (behind_operation hnested hcondition htight hfirst hfront hn (by rw [hkind]; rfl))
          hbranches (by unfold Sentence.left at hn ⊢; omega) ?_ hcloses).imp
            fun _ _ hafter => ⟨trivial, hafter.position⟩) hassign
        simp only [List.length_append, List.length_cons] at hstop ⊢
        omega
    | @assign other target value htight htarget hvalue =>
        rw [Term.signs, ← List.append_assoc] at hshows hstop
        obtain ⟨hfront, hback⟩ := Sentence.shows_append.mp hshows
        have hkind : input.sentence.kindAt _ = other.symbol := hback.kind
        obtain ⟨hends, hnotQuestion⟩ := AssignOp.symbol_ends other
        refine (assignment_takes hnested hvalue (conditional_plain
          (behind_operation hnested htarget htight hfirst hfront hn (by rw [hkind]; exact hends))
          (by rw [hkind]; exact hnotQuestion)) hback (by unfold Sentence.left at hn ⊢; omega) ?_
            hcloses).imp fun _ _ hafter => ⟨trivial, hafter.position⟩
        simp only [List.length_append, List.length_cons] at hstop ⊢
        omega
    | @binary op => exact absurd op.precedence_pos hsome
    | _ => simp [Term.level] at hsome

/-- Behind a type that took the `?`, and the stars behind it, the value ends in front of the `:`
at the latest. -/
theorem behind_type {inner : Term} (hinner : inner.WellFormed)
    (hfirst : Leads (binary nested 1) (infixStep? nested first 1) input state fun _ after =>
      after.position = start)
    (hshows : input.sentence.Shows word start inner.signs)
    (hstar : input.sentence.kindAt start ≠ .star)
    (hcolon : input.sentence.kindAt (start + inner.signs.length) = .colon)
    (hn : input.sentence.left (start + 1) ≤ n) :
    ∃ stop, input.sentence.kindAt stop ≠ .comma ∧ input.sentence.kindAt stop ≠ .semicolon ∧
      Ends (assignment nested) input state (ReadTo (fun _ _ => True) stop) := by
  obtain ⟨last, hleads⟩ := hinner.leadsIn hshows
  have hkind := hleads.kind _ (Nat.le_refl _) hleads.le
  obtain ⟨hgt, his, has, hquestion, hcomma, hsemicolon, hassign⟩ :=
    TokenKind.plain_of_leadsIn hkind
  rcases TokenKind.between_of_leadsIn hkind hstar with hnone | ⟨sign, op, hsign, hop⟩
  · refine ⟨start, hcomma, hsemicolon,
      assignment_plain (conditional_plain ?_ hquestion) hassign⟩
    have hbetween : input.sentence.infixAt? start = none := by
      unfold Sentence.infixAt? Sentence.shiftAt
      simp [hgt, hnone]
    refine (hfirst.ends fun expr after hafter => infixStep?_declines ?_).imp
      fun _ _ hafter => ⟨trivial, hafter⟩
    rwa [hafter]
  · refine ⟨start + inner.signs.length, by rw [hcolon]; decide, by rw [hcolon]; decide, ?_⟩
    obtain ⟨rest, hrest, -, hsigns⟩ := hinner.exists_behind hshows hsign.symm
    have hwhole : inner.signs = op.signs ++ rest.signs := by
      rw [hsigns, hop, ← hsign]
      rfl
    rw [hwhole] at hshows hcolon ⊢
    exact behind_sign hnested hrest hfirst hshows hn rfl (by rw [hcolon]; rfl)

theorem untested_ends (h : term.WellFormed) (hsimple : term.type.isNullable = false)
    (hshows : input.sentence.Shows word state.position term.signs)
    (hn : input.sentence.left state.position ≤ n + 1) :
    ∃ stop, input.sentence.kindAt stop ≠ .comma ∧ input.sentence.kindAt stop ≠ .semicolon ∧
      Ends (assignment nested) input state (ReadTo (fun _ _ => True) stop) := by
  obtain ⟨-, hbehind⟩ := Sentence.shows_append.mp hshows
  obtain ⟨-, hbranches⟩ := Sentence.shows_append.mp hbehind.tail
  obtain ⟨htrue, -⟩ := Sentence.shows_append.mp hbranches.tail
  obtain ⟨stars, inner, hinner, hstars, hstar⟩ := h.whenTrue.exists_stars htrue
  have hsigns : term.signs = term.operand.signs ++ .fixed term.test.keyword ::
      ((term.type.taken stars).signs ++
        (inner.signs ++ .fixed .colon :: term.whenFalse.signs)) := by
    simp [TestTerm.signs, TestTerm.branchSigns, TypeTerm.taken_signs, hstars]
  rw [hsigns] at hshows
  obtain ⟨hoperand, hkeyword⟩ := Sentence.shows_append.mp hshows
  obtain ⟨htype, hrest⟩ := Sentence.shows_append.mp hkeyword.tail
  obtain ⟨hshown, hcolon⟩ := Sentence.shows_append.mp hrest
  have hlength : (term.type.taken stars).signs.length = term.type.signs.length + 1 + stars := by
    simp only [TypeTerm.taken_signs, List.length_append, List.length_cons, List.length_replicate]
    omega
  have hnext : input.sentence.kindAt (state.position + term.operand.signs.length + 1 +
      (term.type.taken stars).signs.length) ≠ .star := by
    rw [hlength]
    convert hstar using 2
    omega
  obtain ⟨last, hleads⟩ := hinner.leadsIn hshown
  have hends : (term.type.taken stars).EndsAt input.sentence (state.position +
      term.operand.signs.length + 1 + (term.type.taken stars).signs.length) :=
    .of_kind (TokenKind.endsType_of_leadsIn (hleads.kind _ (Nat.le_refl _) hleads.le) hnext)
  have hfirst := tested_leads hnested term.test h.operand h.tight hoperand hkeyword.kind
    (h.type.taken hsimple stars) htype.tells hends hn
  exact behind_type hnested hinner (fun post hpost => hfirst post fun value after k hvalue =>
    hpost value after k hvalue.2.1) hshown hnext hcolon.kind
    (by unfold Sentence.left at hn ⊢; omega)

end Nested

/-! ## The whole text -/

theorem variableValue_ends {last : Nat} (hleads : input.sentence.LeadsIn state.position last) :
    ∃ n, input.sentence.left state.position ≤ n + 1 ∧ ∀ post,
      Ends (assignment (exprWithin n)) input state post → Ends variableValue input state post := by
  have hkind := hleads.kind _ (Nat.le_refl _) hleads.le
  have hlt := Sentence.lt_size_of_kindAt (TokenKind.ne_of_leadsIn hkind (by decide))
  obtain ⟨n, hn⟩ : ∃ n, input.sentence.left state.position = n + 1 :=
    ⟨input.sentence.left state.position - 1, by unfold Sentence.left; omega⟩
  have hbrace : input.sentence.kindAt state.position ≠ .lBrace :=
    TokenKind.ne_of_leadsIn hkind (by decide)
  refine ⟨n, Nat.le_of_eq hn, fun post h => ?_⟩
  unfold variableValue initializerElement
  refine .ask fun answer hanswer => ?_
  obtain rfl : answer = false := hanswer.symm.trans (by simpa using hbrace)
  unfold exprAt
  refine .left ?_
  rw [hn]
  exact h

/-- The conditional is read from its field if the type is nullable; else an error is noted. -/
theorem compilationUnit_tested (h : term.WellFormed)
    (hshows : input.sentence.Shows word 0 (.fixed .classKw :: Sign.classSigns term.signs))
    (hsize : input.sentence.size = 1 + (Sign.classSigns term.signs).length) :
    Ends compilationUnit input .start fun root after =>
      (term.type.isNullable = true →
        (root.members.flatMap (·.initializers)).map (·.testTerm? word) = [some term] ∧
          Quiet .start after) ∧
      (term.type.isNullable = false → Reported after) := by
  have hfield : Sign.classSigns term.signs = ⟨.identifier, "C", false⟩ :: .fixed .lBrace ::
      .fixed .objectKw :: ⟨.identifier, "f", false⟩ :: .fixed .eq ::
        (term.signs ++ [.fixed .semicolon, .fixed .rBrace]) := by
    simp [Sign.classSigns]
  rw [hfield] at hshows hsize
  simp only [List.length_cons, List.length_append, List.length_nil] at hsize
  obtain ⟨hvalue, hback⟩ := Sentence.shows_append.mp hshows.tail.tail.tail.tail.tail.tail
  obtain ⟨last, hleads⟩ := h.operand.leadsIn (Sentence.shows_append.mp hvalue).1
  have hsemicolon : input.sentence.kindAt (6 + term.signs.length) = .semicolon := hback.kind
  have hstart : input.sentence.LeadsIn
      ({ ParseState.start with position := 6 } : ParseState).position last := hleads
  obtain ⟨n, hn, hends⟩ := variableValue_ends hstart
  have hnested : Restores n input word (exprWithin n) := exprWithin_restores n
  cases hnullable : term.type.isNullable with
  | true =>
      have hread : Ends variableValue input { ParseState.start with position := 6 }
          (ReadTo (fun value noted => value.testTerm? word = some term ∧
            Quiet .start ⟨0, noted, .empty⟩) (6 + term.signs.length)) :=
        hends _ (tested_back hnested h hnullable hvalue (by dsimp only; rw [hsemicolon]; rfl) hn)
      refine (compilationUnit_field hshows (by omega) hread).imp ?_
      rintro root after ⟨value, hinit, hterm, hquiet⟩
      exact ⟨fun _ => ⟨by simp [hinit, hterm], hquiet⟩, by simp⟩
  | false =>
      obtain ⟨stop, hcomma, hnotSemicolon, hread⟩ :=
        untested_ends hnested h hnullable hvalue hn
      exact (compilationUnit_unended hshows (hends _ hread) hcomma hnotSemicolon).imp
        fun root after hafter => ⟨by simp, fun _ => hafter⟩

end Parse

/-- A type test in front of a `?` is read as the condition if its type is nullable, and only
then nothing is reported. -/
theorem SyntaxTree.ofText_typeTest {term : TestTerm} (h : term.WellFormed)
    {version : LanguageVersion} (hversion : .v7 ≤ version) :
    ((ofText term.inField version).diagnostics = [] ↔ term.type.isNullable = true) ∧
      (term.type.isNullable = true →
        ((ofText term.inField version).root.members.flatMap (·.initializers)).map
          (·.testTerm? (ofText term.inField version).word) = [some term]) := by
  have hvalue : term.inField = Sign.inField term.signs := rfl
  rw [hvalue]
  obtain ⟨state, ⟨hback, hreported⟩, hdiagnostics⟩ :=
    ofText_field h.spaced version fun input hshows hsize =>
      Parse.compilationUnit_tested h hshows hsize
  refine ⟨⟨fun hnone => ?_, fun hnullable => ?_⟩, fun hnullable => (hback hnullable).1⟩
  · cases hnullable : term.type.isNullable with
    | true => rfl
    | false =>
        have hempty : findingsIn (Sign.inField term.signs)
            (lex (Sign.inField term.signs)).tokens version state = [] := by
          have hsorted := hdiagnostics.symm.trans hnone
          rw [DiagnosticBag.sorted] at hsorted
          exact List.nil_perm.mp (hsorted ▸ List.mergeSort_perm _ _)
        have herrors : state.errors = 0 :=
          errors_eq_zero (Sign.inField term.signs) version
            fun diagnostic hmem => absurd (hempty ▸ hmem) List.not_mem_nil
        exact absurd herrors (Nat.ne_of_gt (hreported hnullable))
  · rw [hdiagnostics, (hback hnullable).2.findingsIn _ _ hversion]
    simp [findingsIn, ParseState.start, DiagnosticBag.sorted]

def TestTerm.nullable : TestTerm where
  test := .asTest
  operand := .binary .lt (.literal .intLiteral "1") (.unary .neg .this)
  type := .nullable (.array (.predefined .intKw) [2])
  whenTrue := .unary .deref .this
  whenFalse := .conditional .this (.literal .intLiteral "1") (.literal .intLiteral "2")

theorem SyntaxTree.ofText_typeTest_nullable :
    TestTerm.nullable.inField =
        "class C \x7b object f = 1 < - this as int [ , ] ? ? * this : this ? 1 : 2 ; \x7d" ∧
      TestTerm.nullable.WellFormed ∧ LanguageVersion.v7 ≤ .v7_1 ∧
      TestTerm.nullable.type.isNullable = true ∧
      (ofText TestTerm.nullable.inField .v7_1).diagnostics = [] ∧
      ((ofText TestTerm.nullable.inField .v7_1).root.members.flatMap (·.initializers)).map
        (·.testTerm? (ofText TestTerm.nullable.inField .v7_1).word) = [some TestTerm.nullable] := by
  have hliteral : ∀ text ∈ ["1", "2"], (Term.literal .intLiteral text).WellFormed :=
    fun text hmem => .literal rfl (by revert text; decide)
  have hbranch : TestTerm.nullable.whenFalse.WellFormed :=
    .conditional (by decide) .this (hliteral "1" (by simp)) (hliteral "2" (by simp))
  have hwellFormed : TestTerm.nullable.WellFormed :=
    ⟨by decide, .binary (by decide) (by decide) (hliteral "1" (by simp)) (.unary (by decide) .this),
      .nullable rfl (.array rfl (by decide) (by decide) (.predefined rfl)), by decide,
      .unary (by decide) .this, hbranch⟩
  have hversion : LanguageVersion.v7 ≤ .v7_1 := by decide
  obtain ⟨hreports, hreads⟩ := ofText_typeTest hwellFormed hversion
  exact ⟨by decide, hwellFormed, hversion, rfl, hreports.mpr rfl, hreads rfl⟩

def TestTerm.simple : TestTerm where
  test := .isTest
  operand := .this
  type := .predefined .intKw
  whenTrue := .literal .intLiteral "1"
  whenFalse := .literal .intLiteral "2"

theorem SyntaxTree.ofText_typeTest_simple :
    TestTerm.simple.WellFormed ∧
      TestTerm.simple.inField = "class C \x7b object f = this is int ? 1 : 2 ; \x7d" ∧
      ∃ diagnostic ∈ (ofText TestTerm.simple.inField .v7_1).diagnostics,
        diagnostic.code = .semicolonExpected ∧ diagnostic.span = ⟨35, 36⟩ := by
  have hwellFormed : TestTerm.simple.WellFormed :=
    ⟨by decide, .this, .predefined rfl, by decide, .literal rfl (by decide),
      .literal rfl (by decide)⟩
  have htext : TestTerm.simple.inField = "class C \x7b object f = this is int ? 1 : 2 ; \x7d" := by
    decide
  have hfound : ∃ diagnostic ∈
      findingsIn "class C \x7b object f = this is int ? 1 : 2 ; \x7d"
        (lex "class C \x7b object f = this is int ? 1 : 2 ; \x7d").tokens .v7_1
        (ofSentence (.ofTokens
          (lex "class C \x7b object f = this is int ? 1 : 2 ; \x7d").tokens)).2,
      diagnostic.code = .semicolonExpected ∧ diagnostic.span = ⟨35, 36⟩ := by decide +kernel
  refine ⟨hwellFormed, htext, ?_⟩
  rw [htext]
  obtain ⟨diagnostic, hmem, hcode⟩ := hfound
  exact ⟨diagnostic, mem_diagnostics.mpr (.inr hmem), hcode⟩

end TolerantSyntax
