import TolerantSyntax.Proofs.Reads.Expr
import TolerantSyntax.Proofs.RoundTrip.Arguments

/-!
# Operands are read back

What binds tightest, with its suffixes behind it and the unary operators in front of it.  Each
suffix takes what has been read so far; a `(` is tried as a cast first, which comes to nothing.
-/

namespace TolerantSyntax.Parse

variable {n : Nat} {input : Input} {word : Nat → Spelling} {state : ParseState}
  {nested : ExprLevel → Parse Expr} {term : Term} {start stop : Nat}

theorem single_back {make : ExprInfo → Nat → Expr}
    (hkind : input.sentence.kindAt state.position ≠ .eof)
    (hmake : ∀ info, (make info state.position).term? word = some term) :
    Ends (single make) input state (ReadBack word term (state.position + 1) state) := by
  unfold single
  exact .position (.advance hkind (complete_back hmake rfl rfl))

theorem literal_back {kind : TokenKind} {text : String} (hliteral : kind.isLiteral = true)
    (hshows : input.sentence.Shows word state.position (Term.literal kind text).signs) :
    Ends (primary nested) input state
      (ReadBack word (.literal kind text) (state.position + 1) state) := by
  have hword := hshows.1.2.2
  unfold primary
  refine .kind fun kind' hkind => ?_
  obtain rfl : kind' = kind := hkind.symm.trans hshows.kind
  split
  case h_9 =>
    refine .ite (fun _ => single_back ?_ fun info => ?_) fun hno => absurd hliteral hno
    · rw [hkind]
      rintro rfl
      cases hliteral
    · rw [Expr.term?, hword.1, hword.2]
  all_goals cases hliteral

theorem this_back (hshows : input.sentence.Shows word state.position Term.this.signs) :
    Ends (primary nested) input state (ReadBack word .this (state.position + 1) state) := by
  have hthis : input.sentence.kindAt state.position = .thisKw := hshows.kind
  unfold primary
  refine .kind fun kind hkind => ?_
  obtain rfl : kind = .thisKw := hkind.symm.trans hthis
  exact single_back (by simp [hkind]) fun info => rfl

theorem exprSuffix?_stops {first : Nat} {expr : Expr}
    (h : input.sentence.EndsSuffix state.position) :
    Declines (exprSuffix? nested first expr) input state := by
  have hkind := h.kind
  unfold exprSuffix?
  refine .kind fun kind hkind' => ?_
  rw [hkind'] at hkind
  split
  · cases hkind
  · cases hkind
  · cases hkind
  · split
    · rename_i op hop
      rw [StepOp.symbol_of_ofKind? hop] at hkind
      cases op <;> cases hkind
    · exact .pure ⟨rfl, rfl⟩

section Suffixes

variable {before : ParseState} {expr : Expr} {inner : Term}
  (hexpr : ReadBack word inner stop before expr state)
include hexpr

theorem memberAccess_back (first : Nat) {name : String}
    (hshows : input.sentence.Shows word stop [.fixed .dot, ⟨.identifier, name, false⟩])
    (hlt : input.sentence.kindAt (stop + 2) = .lt →
      ∃ last, input.sentence.LeadsIn (stop + 2 + 1) last) :
    Ends (exprSuffix? nested first expr) input state
      (Grown word (.memberAccess inner name) (stop + 2) before) := by
  have hdot : input.sentence.kindAt stop = .dot := hshows.kind
  have hname : input.sentence.kindAt (stop + 1) = .identifier := hshows.tail.kind
  have htext : (word (stop + 1)).text = name := hshows.tail.1.2.2.2
  obtain ⟨hterm, rfl, hfindings⟩ := hexpr
  unfold exprSuffix?
  refine .kind fun kind hkind => ?_
  obtain rfl : kind = .dot := hkind.symm.trans hdot
  refine .advance (by simp [hkind]) (.expectTaken hname (by decide) ?_)
  refine .ite (fun _ => (typeArguments?_declines hlt).bind ?_) fun hno => absurd rfl hno
  refine grown_back (fun info => ?_) rfl hfindings
  simp [hterm, htext]

theorem step_back (first : Nat) (op : StepOp)
    (hkind : input.sentence.kindAt stop = op.symbol) :
    Ends (exprSuffix? nested first expr) input state
      (Grown word (.step op inner) (stop + 1) before) := by
  obtain ⟨hterm, rfl, hfindings⟩ := hexpr
  unfold exprSuffix?
  refine .kind fun kind hkind' => ?_
  obtain rfl : kind = op.symbol := hkind'.symm.trans hkind
  cases op <;>
    exact .advance (by rw [hkind]; decide)
      (grown_back (fun info => by simp [hterm]) rfl hfindings)

end Suffixes

section Nested

variable (hnested : Restores n input word nested)
include hnested

theorem parenthesized_back (hterm : term.WellFormed)
    (hshows : input.sentence.Shows word state.position (Term.parenthesized term).signs)
    (hn : input.sentence.left state.position ≤ n + 1) :
    Ends (parenthesized nested) input state
      (ReadBack word (.parenthesized term)
        (state.position + (Term.parenthesized term).signs.length) state) := by
  obtain ⟨hinner, hclosing⟩ := Sentence.shows_append.mp hshows.tail
  have hkind : input.sentence.kindAt state.position = .lParen := hshows.kind
  have hstop : input.sentence.kindAt (state.position + 1 + term.signs.length) = .rParen :=
    hclosing.kind
  unfold parenthesized
  refine .position (.advance (by simp [hkind]) ?_)
  refine (hnested .full term _ _ _ hterm trivial hinner rfl rfl
    (by unfold Sentence.left at hn ⊢; omega) (by rw [ExprLevel.Stops, hstop]; rfl)).bind ?_
  intro inner after hread
  have hposition := hread.position
  rw [← hposition] at hstop
  refine (eat_declines (by simp [hstop])).bind (.expectTaken hstop (by decide) ?_)
  refine complete_back (fun info => by simp [hread.term]) ?_ hread.findings
  simp only [Term.signs, List.length_cons, List.length_append, List.length_nil]
  omega

section Suffixes

variable {before : ParseState} {expr : Expr} {inner : Term}
  (hexpr : ReadBack word inner stop before expr state)
include hexpr

theorem invocation_back (first : Nat) {args : List Term} (hargs : ∀ arg ∈ args, arg.WellFormed)
    (hshows : input.sentence.Shows word stop
      (.fixed .lParen :: ((Term.argumentSigns args).tail ++ [.fixed .rParen])))
    (hn : input.sentence.left (stop + 1) ≤ n) :
    Ends (exprSuffix? nested first expr) input state
      (Grown word (.invocation inner args) (stop + ((Term.argumentSigns args).tail.length + 2))
        before) := by
  have hopening : input.sentence.kindAt stop = .lParen := hshows.kind
  obtain ⟨hterm, rfl, hfindings⟩ := hexpr
  unfold exprSuffix?
  refine .kind fun kind hkind => ?_
  obtain rfl : kind = .lParen := hkind.symm.trans hopening
  refine (argumentList_back hnested (.inl rfl) hargs hshows.tail rfl (by simp [hkind]) hn).bind ?_
  rintro list after ⟨hterms, hposition, hnoted⟩
  refine grown_back (fun info => ?_) hposition (hnoted.trans hfindings)
  simp [hterm, hterms]

theorem elementAccess_back (first : Nat) {args : List Term} (hargs : ∀ arg ∈ args, arg.WellFormed)
    (hshows : input.sentence.Shows word stop
      (.fixed .lBracket :: ((Term.argumentSigns args).tail ++ [.fixed .rBracket])))
    (hn : input.sentence.left (stop + 1) ≤ n) :
    Ends (exprSuffix? nested first expr) input state
      (Grown word (.elementAccess inner args) (stop + ((Term.argumentSigns args).tail.length + 2))
        before) := by
  have hopening : input.sentence.kindAt stop = .lBracket := hshows.kind
  obtain ⟨hterm, rfl, hfindings⟩ := hexpr
  unfold exprSuffix?
  refine .kind fun kind hkind => ?_
  obtain rfl : kind = .lBracket := hkind.symm.trans hopening
  refine (argumentList_back hnested (.inr rfl) hargs hshows.tail rfl (by simp [hkind]) hn).bind ?_
  rintro list after ⟨hterms, hposition, hnoted⟩
  refine grown_back (fun info => ?_) hposition (hnoted.trans hfindings)
  simp [hterm, hterms]

end Suffixes

/-! ## All suffixes -/

/-- Suffixes are read one by one, each behind what they belong to. -/
theorem suffixed_leads (hterm : term.WellFormed) (htight : 13 ≤ term.level)
    (hshows : input.sentence.Shows word state.position term.signs)
    (hn : input.sentence.left state.position ≤ n + 1)
    (hlt : input.sentence.kindAt (state.position + term.signs.length) = .lt →
      ∃ stop, input.sentence.LeadsIn (state.position + term.signs.length + 1) stop) :
    LeadsTo (suffixed nested) (exprSuffix? nested state.position) input word term state := by
  have hfirst : ∀ {term}, Ends (primary nested) input state
      (ReadBack word term (state.position + term.signs.length) state) →
      LeadsTo (suffixed nested) (exprSuffix? nested state.position) input word term state :=
    fun hprimary post hpost => .position (LeadsTo.of_first hprimary post hpost)
  induction hterm with
  | literal hliteral htext => exact hfirst (literal_back hliteral hshows)
  | this => exact hfirst (this_back hshows)
  | parenthesized hinner ih =>
      apply hfirst
      have hkind : input.sentence.kindAt state.position = .lParen := hshows.kind
      unfold primary
      refine .kind fun kind hkind' => ?_
      obtain rfl : kind = .lParen := hkind'.symm.trans hkind
      exact parenthesized_back hnested hinner hshows hn
  | @memberAccess receiver name hinner _ _ ih =>
      obtain ⟨hfront, hback⟩ := Sentence.shows_append.mp hshows
      have hkind : input.sentence.kindAt _ = .dot := hback.kind
      have hlength :
          (Term.memberAccess receiver name).signs.length = receiver.signs.length + 2 := by
        simp [Term.signs]
      rw [hlength, ← Nat.add_assoc] at hlt
      refine (ih hinner hfront (by simp [hkind])).grow (by simp [hkind]) (by omega) ?_
      intro expr after hexpr
      rw [hlength, ← Nat.add_assoc]
      exact memberAccess_back hexpr _ hback hlt
  | @invocation callee args hinner _ hargs ih =>
      obtain ⟨hfront, hback⟩ := Sentence.shows_append.mp hshows
      have hkind : input.sentence.kindAt _ = .lParen := hback.kind
      have hlength : (Term.invocation callee args).signs.length =
          callee.signs.length + ((Term.argumentSigns args).tail.length + 2) := by
        simp [Term.signs]
      refine (ih hinner hfront (by simp [hkind])).grow (by simp [hkind]) (by omega) ?_
      intro expr after hexpr
      rw [hlength, ← Nat.add_assoc]
      exact invocation_back hnested hexpr _ hargs hback (by unfold Sentence.left at hn ⊢; omega)
  | @elementAccess receiver args hinner _ hargs _ ih =>
      obtain ⟨hfront, hback⟩ := Sentence.shows_append.mp hshows
      have hkind : input.sentence.kindAt _ = .lBracket := hback.kind
      have hlength : (Term.elementAccess receiver args).signs.length =
          receiver.signs.length + ((Term.argumentSigns args).tail.length + 2) := by
        simp [Term.signs]
      refine (ih hinner hfront (by simp [hkind])).grow (by simp [hkind]) (by omega) ?_
      intro expr after hexpr
      rw [hlength, ← Nat.add_assoc]
      exact elementAccess_back hnested hexpr _ hargs hback (by unfold Sentence.left at hn ⊢; omega)
  | @step op operand hinner _ ih =>
      obtain ⟨hfront, hback⟩ := Sentence.shows_append.mp hshows
      have hkind : input.sentence.kindAt _ = op.symbol := hback.kind
      have hlength : (Term.step op operand).signs.length = operand.signs.length + 1 := by
        simp [Term.signs]
      refine (ih hinner hfront ?_).grow ?_ (by omega) ?_
      · rw [hkind]
        cases op <;> nofun
      · rw [hkind]
        cases op <;> nofun
      · intro expr after hexpr
        rw [hlength, ← Nat.add_assoc]
        exact step_back hexpr _ op hkind
  | @binary op =>
      have hle := op.precedence_le
      simp only [Term.level] at htight
      omega
  | unary | conditional | assign => simp [Term.level] at htight

theorem suffixed_back (hterm : term.WellFormed) (htight : 13 ≤ term.level)
    (hshows : input.sentence.Shows word state.position term.signs)
    (hn : input.sentence.left state.position ≤ n + 1)
    (hstops : input.sentence.EndsSuffix (state.position + term.signs.length)) :
    Ends (suffixed nested) input state
      (ReadBack word term (state.position + term.signs.length) state) := by
  refine (suffixed_leads hnested hterm htight hshows hn hstops.lt).ends fun expr after hexpr => ?_
  rw [← hexpr.position] at hstops
  exact exprSuffix?_stops hstops

theorem tight_back (hterm : term.WellFormed) (htight : 13 ≤ term.level)
    (hshows : input.sentence.Shows word state.position term.signs)
    (hn : input.sentence.left state.position ≤ n + 1)
    (hstops : input.sentence.EndsSuffix (state.position + term.signs.length)) :
    Ends (unary nested) input state
      (ReadBack word term (state.position + term.signs.length) state) := by
  have hsuffixed := suffixed_back hnested hterm htight hshows hn hstops
  obtain ⟨last, hleads⟩ := hterm.leadsIn hshows
  unfold unary
  refine .position (.kind fun kind hkind => ?_)
  rcases hterm.head_tight htight hshows with hparen | hthis | hliteral
  · obtain rfl : kind = .lParen := hkind.symm.trans hparen
    have htail := hleads.tail (by simp [hkind]) (by rw [hkind]; rfl)
    exact (castHead?_declines hkind htail).bind hsuffixed
  · obtain rfl : kind = .thisKw := hkind.symm.trans hthis
    exact hsuffixed
  · rw [hkind] at hliteral
    split
    · cases hliteral
    · cases hliteral
    · split
      · rename_i op hop
        rw [UnaryOp.symbol_of_ofKind? hop] at hliteral
        cases op <;> cases hliteral
      · exact hsuffixed

theorem operator_back (op : UnaryOp) (hterm : term.WellFormed) (htight : 12 ≤ term.level)
    (hshows : input.sentence.Shows word state.position (Term.unary op term).signs)
    (hn : input.sentence.left state.position ≤ n + 1)
    (hstops : input.sentence.EndsSuffix
      (state.position + (Term.unary op term).signs.length)) :
    Ends (unary nested) input state
      (ReadBack word (.unary op term) (state.position + (Term.unary op term).signs.length)
        state) := by
  have hop : input.sentence.kindAt state.position = op.symbol := hshows.kind
  have hlength : state.position + (Term.unary op term).signs.length =
      state.position + 1 + term.signs.length := by
    simp only [Term.signs, List.length_cons]
    omega
  have hlt : state.position < input.sentence.size :=
    Sentence.lt_size_of_kindAt (by rw [hop]; cases op <;> nofun)
  rw [hlength] at hstops ⊢
  have hread := hnested .unary term { state with position := state.position + 1 } _ _ hterm htight
    hshows.tail rfl rfl (by unfold Sentence.left at hn ⊢; omega) hstops
  unfold unary
  refine .position (.kind fun kind hkind => ?_)
  obtain rfl : kind = op.symbol := hkind.symm.trans hop
  have hcomplete : ∀ operand after, ReadBack word term (state.position + 1 + term.signs.length)
      { state with position := state.position + 1 } operand after →
      Ends (complete state.position fun info => .unary info op operand) input after
        (ReadBack word (.unary op term) (state.position + 1 + term.signs.length) state) :=
    fun operand after h =>
      complete_back (fun info => by simp [h.term]) h.position h.findings
  cases op <;> exact .advance (by rw [hop]; nofun) (hread.bind hcomplete)

theorem unary_back (hterm : term.WellFormed) (htight : 12 ≤ term.level)
    (hshows : input.sentence.Shows word state.position term.signs)
    (hn : input.sentence.left state.position ≤ n + 1)
    (hstops : input.sentence.EndsSuffix (state.position + term.signs.length)) :
    Ends (unary nested) input state
      (ReadBack word term (state.position + term.signs.length) state) := by
  by_cases hlevel : 13 ≤ term.level
  · exact tight_back hnested hterm hlevel hshows hn hstops
  · cases hterm with
    | @unary op operand hinner hoperand =>
        exact operator_back hnested op hoperand hinner hshows hn hstops
    | @binary op =>
        have hle := op.precedence_le
        simp only [Term.level] at htight
        omega
    | conditional | assign => simp [Term.level] at htight
    | literal | this | parenthesized | memberAccess | invocation | elementAccess | step =>
        simp [Term.level] at hlevel

end Nested
end TolerantSyntax.Parse
