import TolerantSyntax.Proofs.RoundTrip.Climbing
import TolerantSyntax.Proofs.RoundTrip.Sequence

/-!
# Operators behind any operand

What stands in front of an operator need not be a term: it may end in a type, which has taken
symbols that were meant as something else.  Where a term that starts with a sign stands behind
it, the sign is an operator between, and the rest of the term becomes operators and their right
operands, each too loose for the operand in front of it.
-/

namespace TolerantSyntax

namespace Term.WellFormed

variable {sentence : Sentence} {word : Nat → Spelling} {index : Nat} {term : Term}

/-- A term that starts with an operator is the operator and a term that is at least as tight. -/
theorem exists_behind {op : UnaryOp} (h : term.WellFormed)
    (hshows : sentence.Shows word index term.signs) (hkind : sentence.kindAt index = op.symbol) :
    ∃ inner : Term, inner.WellFormed ∧ term.level ≤ inner.level ∧
      term.signs = .fixed op.symbol :: inner.signs := by
  have hatom : op.symbol.isLiteral = false ∧ op.symbol ≠ .thisKw ∧ op.symbol ≠ .lParen := by
    cases op <;> decide
  induction h with
  | literal hliteral =>
      rw [← hkind, hshows.kind, hliteral] at hatom
      cases hatom.1
  | this => exact absurd (hkind.symm.trans hshows.kind) hatom.2.1
  | parenthesized => exact absurd (hkind.symm.trans hshows.kind) hatom.2.2
  | @unary other operand htight hoperand =>
      have hsame : op.symbol = other.symbol := hkind.symm.trans hshows.kind
      exact ⟨operand, hoperand, htight, by rw [signs, hsame]⟩
  | @memberAccess receiver name htight _ hname ih =>
      obtain ⟨inner, hinner, hlevel, hsigns⟩ := ih (Sentence.shows_append.mp hshows).1
      exact ⟨.memberAccess inner name, .memberAccess (Nat.le_trans htight hlevel) hinner hname,
        Nat.le_refl _, by rw [signs, signs, hsigns, List.cons_append]⟩
  | @invocation callee args htight _ hargs ih =>
      obtain ⟨inner, hinner, hlevel, hsigns⟩ := ih (Sentence.shows_append.mp hshows).1
      exact ⟨.invocation inner args, .invocation (Nat.le_trans htight hlevel) hinner hargs,
        Nat.le_refl _, by rw [signs, signs, hsigns, List.cons_append]⟩
  | @elementAccess receiver args htight _ hargs hsome ih =>
      obtain ⟨inner, hinner, hlevel, hsigns⟩ := ih (Sentence.shows_append.mp hshows).1
      exact ⟨.elementAccess inner args,
        .elementAccess (Nat.le_trans htight hlevel) hinner hargs hsome,
        Nat.le_refl _, by rw [signs, signs, hsigns, List.cons_append]⟩
  | @step other operand htight _ ih =>
      obtain ⟨inner, hinner, hlevel, hsigns⟩ := ih (Sentence.shows_append.mp hshows).1
      exact ⟨.step other inner, .step (Nat.le_trans htight hlevel) hinner, Nat.le_refl _,
        by rw [signs, signs, hsigns, List.cons_append]⟩
  | @binary other left right htight htight' _ hright ih =>
      obtain ⟨inner, hinner, hlevel, hsigns⟩ := ih (Sentence.shows_append.mp hshows).1
      exact ⟨.binary other inner right,
        .binary (Nat.le_trans htight hlevel) htight' hinner hright, Nat.le_refl _,
        by rw [signs, signs, hsigns, List.cons_append]⟩
  | @conditional condition whenTrue whenFalse htight _ htrue hfalse ih =>
      obtain ⟨inner, hinner, hlevel, hsigns⟩ := ih (Sentence.shows_append.mp hshows).1
      exact ⟨.conditional inner whenTrue whenFalse,
        .conditional (Nat.le_trans htight hlevel) hinner htrue hfalse, Nat.le_refl _,
        by rw [signs, signs, hsigns, List.cons_append]⟩
  | @assign other target value htight _ hvalue ih =>
      obtain ⟨inner, hinner, hlevel, hsigns⟩ := ih (Sentence.shows_append.mp hshows).1
      exact ⟨.assign other inner value, .assign (Nat.le_trans htight hlevel) hinner hvalue,
        Nat.le_refl _, by rw [signs, signs, hsigns, List.cons_append]⟩

theorem exists_stars (h : term.WellFormed) (hshows : sentence.Shows word index term.signs) :
    ∃ (stars : Nat) (inner : Term), inner.WellFormed ∧
      term.signs = List.replicate stars (.fixed .star) ++ inner.signs ∧
      sentence.kindAt (index + stars) ≠ .star := by
  induction hlength : term.signs.length using Nat.strong_induction_on generalizing term index with
  | _ length ih =>
    by_cases hstar : sentence.kindAt index = .star
    · have hderef : sentence.kindAt index = UnaryOp.deref.symbol := hstar
      obtain ⟨inner, hinner, -, hsigns⟩ := h.exists_behind hshows hderef
      rw [hsigns] at hshows hlength
      obtain ⟨stars, rest, hrest, hstars, hnext⟩ :=
        ih inner.signs.length (by rw [← hlength]; exact Nat.lt_succ_self _) hinner hshows.tail rfl
      refine ⟨stars + 1, rest, hrest, ?_, ?_⟩
      · rw [hsigns, hstars, List.replicate_succ, List.cons_append]
        rfl
      · rwa [Nat.add_comm stars 1, ← Nat.add_assoc]
    · exact ⟨0, term, h, rfl, hstar⟩

end Term.WellFormed

/-- Operators with their right operands, each at least as loose as the one in front of it; the
number is the precedence of the last one. -/
inductive Operations : List Sign → Nat → Prop where
  | first (op : BinaryOp) {right : Term} (hright : right.WellFormed)
      (htight : op.rightLevel ≤ right.level) : Operations (op.signs ++ right.signs) op.precedence
  | more {front : List Sign} {level : Nat} {op : BinaryOp} {right : Term}
      (hfront : Operations front level) (hloose : op.leftLevel ≤ level)
      (hright : right.WellFormed) (htight : op.rightLevel ≤ right.level) :
      Operations (front ++ (op.signs ++ right.signs)) op.precedence

theorem Term.WellFormed.operations {term : Term} (h : term.WellFormed) (hsome : 1 ≤ term.level)
    (op : BinaryOp) :
    ∃ level, Operations (op.signs ++ term.signs) level ∧ min op.precedence term.level ≤ level := by
  have hwhole : op.rightLevel ≤ term.level →
      ∃ level, Operations (op.signs ++ term.signs) level ∧
        min op.precedence term.level ≤ level :=
    fun htight => ⟨_, .first op h htight, Nat.min_le_left ..⟩
  have htop := op.rightLevel_le
  induction h with
  | @binary other left right hleft hright hleftTerm hrightTerm ih =>
      by_cases htight : op.rightLevel ≤ other.precedence
      · exact hwhole htight
      · have hloose : (InfixOp.binary other).leftLevel ≤ op.precedence :=
          InfixOp.leftLevel_le_iff.mpr (Nat.lt_of_not_le htight)
        have hpos := Nat.le_trans other.precedence_pos other.precedence_le_leftLevel
        obtain ⟨level, hfront, hlevel⟩ := ih (Nat.le_trans hpos hleft)
          fun htight => ⟨_, .first op hleftTerm htight, Nat.min_le_left ..⟩
        refine ⟨other.precedence, ?_, Nat.min_le_right ..⟩
        have hchain := Operations.more hfront
          (Nat.le_trans (Nat.le_min.mpr ⟨hloose, hleft⟩) hlevel) hrightTerm hright
        rwa [List.append_assoc] at hchain
  | conditional | assign => simp [level] at hsome
  | literal | this | parenthesized | memberAccess | invocation | elementAccess | step | unary =>
      exact hwhole (by simp only [level]; omega)

namespace Parse

variable {n : Nat} {input : Input} {word : Nat → Spelling} {state origin : ParseState}
  {nested : ExprLevel → Parse Expr} {parse : Parse Expr} {start stop first : Nat}

section Nested

variable (hnested : Restores n input word nested)
include hnested

/-- The loop takes the operators one by one, whatever stands in front of them. -/
theorem operations_leads {signs : List Sign} {level : Nat} (hchain : Operations signs level)
    (hfirst : Leads parse (infixStep? nested first 1) input origin fun _ after =>
      after.position = start)
    (hshows : input.sentence.Shows word start signs)
    (hn : input.sentence.left (start + 1) ≤ n)
    (hsuffix : input.sentence.EndsSuffix (start + signs.length))
    (hnext : ∀ op, input.sentence.infixAt? (start + signs.length) = some op →
      op.leftLevel ≤ level) :
    Leads parse (infixStep? nested first 1) input origin fun _ after =>
      after.position = start + signs.length := by
  -- The same for the first operator and for all others, with what stands in front of it.
  have hgrow {front : List Sign} {op : BinaryOp} {right : Term}
      (hfront : Leads parse (infixStep? nested first 1) input origin fun _ after =>
        after.position = start + front.length)
      (hright : right.WellFormed) (htight : op.rightLevel ≤ right.level)
      (hshows : input.sentence.Shows word (start + front.length) (op.signs ++ right.signs))
      (hsuffix : input.sentence.EndsSuffix
        (start + (front ++ (op.signs ++ right.signs)).length))
      (hnext : ∀ next, input.sentence.infixAt?
        (start + (front ++ (op.signs ++ right.signs)).length) = some next →
          next.leftLevel ≤ op.precedence) :
      Leads parse (infixStep? nested first 1) input origin fun _ after =>
        after.position = start + (front ++ (op.signs ++ right.signs)).length := by
    obtain ⟨hkind, -⟩ := operator_endsSuffix hshows
      (hright.leadsIn (Sentence.shows_append.mp hshows).2)
    have hsigns : 0 < op.signs.length := by
      rw [op.length_signs]
      exact InfixOp.width_pos (.binary op)
    refine hfront.grow (fun _ after hafter => by rwa [hafter]) fun expr after hafter => ?_
    rw [← hafter] at hshows
    refine (infixStep?_takes hnested hright htight op.precedence_pos hshows ?_ ?_
      ⟨hsuffix, fun next h => InfixOp.leftLevel_le_iff.mp (hnext next h)⟩).imp ?_
    · unfold Sentence.left at hn ⊢
      omega
    · rw [hafter, List.length_append, Nat.add_assoc]
    · rintro _ last ⟨info, value, rfl, hvalue⟩
      refine ⟨_, rfl, hvalue.position, ?_⟩
      rw [hafter, hvalue.position]
      simp only [List.length_append]
      omega
  induction hchain with
  | @first op right hright htight =>
      have hback := @hgrow [] op right hfirst hright htight hshows hsuffix hnext
      exact hback
  | @more front level op right hfront hloose hright htight ih =>
      obtain ⟨hshown, hback⟩ := Sentence.shows_append.mp hshows
      have hleads := hright.leadsIn (Sentence.shows_append.mp hback).2
      refine hgrow (ih hshown (operator_endsSuffix hback hleads).2 fun next h => ?_) hright htight
        hback hsuffix hnext
      obtain ⟨last, hlast⟩ := hleads
      rw [op.infixAt?_of_shows (Sentence.shows_append.mp hback).1
        (TokenKind.ne_of_leadsIn (hlast.kind _ (Nat.le_refl _) hlast.le) (by decide))] at h
      cases h
      exact hloose

end Nested
end Parse
end TolerantSyntax
