import TolerantSyntax.Proofs.Parse.Known
import TolerantSyntax.Proofs.RoundTrip.Reading

/-!
# Arguments are read back

Arguments are terms with commas between them.  That a term inside another one is read back is
what `Restores` says: this is the hypothesis about what is nested.
-/

namespace TolerantSyntax.Parse

variable {n : Nat} {input : Input} {word : Nat → Spelling} {state : ParseState}
  {nested : ExprLevel → Parse Expr} {term : Term} {start stop : Nat}

/-- Every term is read back at the levels that admit it, while at most `n` symbols are left. -/
def Restores (n : Nat) (input : Input) (word : Nat → Spelling) (nested : ExprLevel → Parse Expr) :
    Prop :=
  ∀ (level : ExprLevel) (term : Term) (state : ParseState) (start stop : Nat),
    term.WellFormed → level.Admits term → input.sentence.Shows word start term.signs →
    state.position = start → stop = start + term.signs.length →
    input.sentence.left start ≤ n → level.Stops input.sentence stop →
    Ends (nested level) input state (ReadBack word term stop state)

structure ArgsBack (word : Nat → Spelling) (terms : List Term) (stop : Nat) (before : ParseState)
    (args : List Argument) (after : ParseState) : Prop where
  terms : argumentTerms? word args = some terms
  position : after.position = stop
  findings : after.findings = before.findings

theorem not_modifier_of_leadsIn {kind : TokenKind} (h : kind.leadsIn = true) :
    TokenSet.argumentModifiers.contains kind = false := by
  have hne (other : TokenKind) (hother : other.leadsIn = false) : kind ≠ other :=
    TokenKind.ne_of_leadsIn h hother
  simp [TokenSet.argumentModifiers, hne .refKw rfl, hne .outKw rfl, hne .inKw rfl]

section Nested

variable (hnested : Restores n input word nested)
include hnested

theorem argument_back (hterm : term.WellFormed)
    (hshows : input.sentence.Shows word start term.signs)
    (hstart : state.position = start) (hstop : stop = start + term.signs.length)
    (hn : input.sentence.left start ≤ n)
    (hstops : (input.sentence.kindAt stop).closesTerm = true) :
    Ends (argument nested) input state fun arg after =>
      arg.term? word = some term ∧ after.position = stop ∧ after.findings = state.findings := by
  obtain ⟨last, hleads⟩ := hterm.leadsIn hshows
  have hmodifier : Declines (whenever (checkAny .argumentModifiers) advance) input state := by
    refine whenever_declines ?_
    rw [hstart]
    exact not_modifier_of_leadsIn (hleads.kind start (Nat.le_refl _) hleads.le)
  unfold argument
  refine hmodifier.bind ?_
  refine (hnested .full term _ start stop hterm trivial hshows hstart hstop hn hstops).bind ?_
  exact fun value after hvalue => .pure ⟨hvalue.term, hvalue.position, hvalue.findings⟩

theorem arguments_back (rest : List Term) (hterm : term.WellFormed)
    (hrest : ∀ arg ∈ rest, arg.WellFormed)
    (hshows : input.sentence.Shows word start (term.signs ++ Term.argumentSigns rest))
    (hstart : state.position = start)
    (hstop : stop = start + (term.signs ++ Term.argumentSigns rest).length)
    (hn : input.sentence.left start ≤ n)
    (hstops : (input.sentence.kindAt stop).closesTerm = true)
    (hcomma : input.sentence.kindAt stop ≠ .comma) (m : Nat)
    (hm : input.sentence.left start ≤ m) :
    Ends (separatedWithin (argument nested) m) input state
      (ArgsBack word (term :: rest) stop state) := by
  induction rest generalizing term state start m with
  | nil =>
      simp only [Term.argumentSigns, List.append_nil] at hshows hstop
      refine separatedWithin_last m
        ((argument_back hnested hterm hshows hstart hstop hn hstops).imp ?_)
      rintro arg after ⟨hterm, hposition, hfindings⟩
      refine ⟨by rwa [hposition], ?_, hposition, hfindings⟩
      simp [hterm]
  | cons next rest ih =>
      obtain ⟨hnext, hrest⟩ := List.forall_mem_cons.mp hrest
      obtain ⟨hfront, hback⟩ := Sentence.shows_append.mp hshows
      have hkind : input.sentence.kindAt (start + term.signs.length) = .comma := hback.kind
      have hlt : start + term.signs.length < input.sentence.size :=
        Sentence.lt_size_of_kindAt (by rw [hkind]; decide)
      have harg := argument_back hnested hterm hfront hstart rfl hn (by rw [hkind]; rfl)
      unfold Sentence.left at hm hn
      obtain ⟨m, rfl⟩ : ∃ k, m = k + 1 := ⟨m - 1, by omega⟩
      refine separatedWithin_more (harg.imp ?_)
      rintro arg after ⟨hterm, hposition, hfindings⟩
      refine ⟨by rwa [hposition], ?_⟩
      have hbehind : stop = start + term.signs.length + 1 +
          (next.signs ++ Term.argumentSigns rest).length := by
        rw [Term.argumentSigns, List.length_append, List.length_cons] at hstop
        omega
      have hmore : Ends (separatedWithin (argument nested) m) input
          { after with position := after.position + 1 }
          (ArgsBack word (next :: rest) stop { after with position := after.position + 1 }) :=
        ih hnext hrest hback.tail (congrArg (· + 1) hposition) hbehind
          (by unfold Sentence.left; omega) m (by unfold Sentence.left; omega)
      refine hmore.imp ?_
      rintro more last ⟨hterms, hlast, hnoted⟩
      exact ⟨by simp [hterm, hterms], hlast, hnoted.trans hfindings⟩

theorem argumentList_back {closing : TokenKind} (hclosing : closing = .rParen ∨ closing = .rBracket)
    {args : List Term} (hargs : ∀ arg ∈ args, arg.WellFormed)
    (hshows : input.sentence.Shows word (start + 1)
      ((Term.argumentSigns args).tail ++ [.fixed closing]))
    (hstart : state.position = start) (hkind : input.sentence.kindAt start ≠ .eof)
    (hn : input.sentence.left (start + 1) ≤ n) :
    Ends (argumentList nested closing) input state fun list after =>
      list.terms? word = some args ∧
        after.position = start + ((Term.argumentSigns args).tail.length + 2) ∧
        after.findings = state.findings := by
  obtain ⟨hcloses, hcomma, hleads, heof⟩ : closing.closesTerm = true ∧ closing ≠ .comma ∧
      closing.leadsIn = false ∧ closing ≠ .eof := by
    rcases hclosing with rfl | rfl <;> decide
  obtain ⟨hfront, hback⟩ := Sentence.shows_append.mp hshows
  have hstop :
      input.sentence.kindAt (start + 1 + (Term.argumentSigns args).tail.length) = closing :=
    hback.kind
  subst hstart
  unfold argumentList
  refine .advance hkind (.ask fun closed hclosed => ?_)
  have hterms : Ends (if closed then pure [] else separated (argument nested)) input
      { state with position := state.position + 1 }
      (ArgsBack word args (state.position + 1 + (Term.argumentSigns args).tail.length)
        { state with position := state.position + 1 }) := by
    cases args with
    | nil =>
        have hyes : closed = true := by
          rw [← hclosed]
          exact beq_iff_eq.mpr hstop
        rw [if_pos hyes]
        exact .pure ⟨rfl, rfl, rfl⟩
    | cons arg rest =>
        obtain ⟨harg, hrest⟩ := List.forall_mem_cons.mp hargs
        obtain ⟨last, hfirst⟩ := harg.leadsIn (Sentence.shows_append.mp hfront).1
        have hno : ¬closed = true := by
          rw [← hclosed]
          have hne := TokenKind.ne_of_leadsIn (hfirst.kind _ (Nat.le_refl _) hfirst.le) hleads
          simpa using hne
        rw [if_neg hno]
        refine .left ?_
        exact arguments_back hnested rest harg hrest hfront rfl rfl hn
          (by rw [← hcloses, ← hstop]; rfl) (by rw [← hstop] at hcomma; exact hcomma) _
          (Nat.le_refl _)
  refine .join hterms fun args' after hargs => ?_
  have hposition := hargs.position
  rw [← hposition] at hstop
  exact .expectTaken hstop heof (.pure ⟨hargs.terms, by dsimp only; omega, hargs.findings⟩)

end Nested
end TolerantSyntax.Parse
