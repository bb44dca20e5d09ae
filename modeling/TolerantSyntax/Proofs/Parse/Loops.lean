import TolerantSyntax.Proofs.Parse.Ends

/-!
# Invariants of loops

Each loop has a rule: what one round preserves holds at the end.  The symbols left bound
the rounds.  When every round takes a symbol this bound is never what ends a loop early,
and then more is known at the end: the step has declined, or the sentence is over.
-/

namespace TolerantSyntax.Parse

variable {α β : Type} {input : Input} {state : ParseState}

theorem eat_ends {kind : TokenKind} (hkind : kind ≠ .eof) :
    Ends (eat kind) input state fun token? after =>
      (input.sentence.kindAt state.position = kind ∧ token? = some state.position ∧
          after = { state with position := state.position + 1 }) ∨
        (input.sentence.kindAt state.position ≠ kind ∧ token? = none ∧ after = state) := by
  unfold eat
  refine .checkIf (fun hyes => ?_) fun hno => ?_
  · refine .advance (by rw [hyes]; exact hkind) (.pure ?_)
    exact .inl ⟨hyes, rfl, rfl⟩
  · exact .pure (.inr ⟨hno, rfl, rfl⟩)

theorem expect_ends {kind : TokenKind} (hkind : kind ≠ .eof) :
    Ends (expect kind) input state fun token? after =>
      (input.sentence.kindAt state.position = kind ∧ token? = some state.position ∧
          after = { state with position := state.position + 1 }) ∨
        (input.sentence.kindAt state.position ≠ kind ∧ token? = none ∧
          after =
            { state with findings := .absent kind state.position :: state.findings }) := by
  unfold expect
  apply (eat_ends hkind).bind
  intro token? after h
  rcases h with ⟨hyes, rfl, rfl⟩ | ⟨hno, rfl, rfl⟩
  · exact .pure (.inl ⟨hyes, rfl, rfl⟩)
  · exact .noteHere (.pure (.inr ⟨hno, rfl, rfl⟩))

theorem attempt_ends {parse : Parse (Option α)} {post : Option α → ParseState → Prop}
    (h : Ends parse input state fun value? after =>
      match value? with
      | none => post none state
      | some value => post (some value) after) :
    Ends (attempt parse) input state post := by
  unfold Ends at h ⊢
  unfold attempt
  cases hparse : parse input state with
  | mk value? after =>
      rw [hparse] at h
      cases value? with
      | none => exact h
      | some value => exact h

theorem lookAhead_ends {parse : Parse α} {post : α → ParseState → Prop}
    (h : ∀ value, post value state) : Ends (lookAhead parse) input state post := h _

theorem whenever_ends {question : Sentence → Nat → Bool} {parse : Parse α}
    {post : Option α → ParseState → Prop}
    (hyes : question input.sentence state.position = true →
      Ends parse input state fun value after => post (some value) after)
    (hno : question input.sentence state.position = false → post none state) :
    Ends (whenever (ask question) parse) input state post := by
  unfold whenever
  refine .askIf (fun h => ?_) fun h => ?_
  · exact (hyes h).bind fun value after hpost => .pure hpost
  · exact .pure (hno h)

section Many

variable {item : Parse (Option α)} (inv : List α → ParseState → Prop)
  {done : List α → ParseState → Prop}

theorem manyWithin_ends
    (hitem : ∀ values state, inv values state → Ends item input state fun value? after =>
      match value? with
      | none => inv values after
      | some value => inv (values ++ [value]) after)
    (n : Nat) (values : List α) (state : ParseState) (h : inv values state) :
    Ends (manyWithin item n) input state fun more after => inv (values ++ more) after := by
  induction n generalizing values state with
  | zero => exact .pure (by simpa using h)
  | succ n ih =>
      unfold manyWithin
      apply (hitem values state h).bind
      intro value? after hinv
      cases value? with
      | none => exact .pure (by simpa using hinv)
      | some value =>
          apply (ih (values ++ [value]) after hinv).bind
          intro more last hlast
          exact .pure (by simpa using hlast)

theorem many_ends
    (hitem : ∀ values state, inv values state → Ends item input state fun value? after =>
      match value? with
      | none => inv values after
      | some value => inv (values ++ [value]) after)
    (h : inv [] state) : Ends (many item) input state inv := by
  unfold many
  exact .left (manyWithin_ends inv hitem _ [] state h)

private theorem manyWithin_done
    (hitem : ∀ values state, inv values state → Ends item input state fun value? after =>
      match value? with
      | none => done values after
      | some value => inv (values ++ [value]) after ∧ state.position < after.position)
    (hover : ∀ values state, inv values state → input.sentence.size ≤ state.position →
      done values state)
    (n : Nat) (values : List α) (state : ParseState) (h : inv values state)
    (hn : input.sentence.left state.position ≤ n) :
    Ends (manyWithin item n) input state fun more after => done (values ++ more) after := by
  induction n generalizing values state with
  | zero =>
      have hsize : input.sentence.size ≤ state.position := by
        unfold Sentence.left at hn
        omega
      exact .pure (by simpa using hover values state h hsize)
  | succ n ih =>
      unfold manyWithin
      apply (hitem values state h).bind
      intro value? after hround
      cases value? with
      | none => exact .pure (by simpa using hround)
      | some value =>
          obtain ⟨hinv, hprogress⟩ := hround
          have hleft : input.sentence.left after.position ≤ n := by
            unfold Sentence.left at hn ⊢
            omega
          apply (ih (values ++ [value]) after hinv hleft).bind
          intro more last hlast
          exact .pure (by simpa using hlast)

/-- When every item takes a symbol, items are read until one declines or none is left. -/
theorem many_done
    (hitem : ∀ values state, inv values state → Ends item input state fun value? after =>
      match value? with
      | none => done values after
      | some value => inv (values ++ [value]) after ∧ state.position < after.position)
    (hover : ∀ values state, inv values state → input.sentence.size ≤ state.position →
      done values state)
    (h : inv [] state) : Ends (many item) input state done := by
  unfold many
  exact .left (manyWithin_done inv hitem hover _ [] state h (Nat.le_refl _))

end Many

section Grow

variable {step : α → Parse (Option α)} (inv : α → ParseState → Prop)
  {done : α → ParseState → Prop}

theorem growWithin_ends
    (hstep : ∀ value state, inv value state → Ends (step value) input state fun grown? after =>
      match grown? with
      | none => inv value after
      | some grown => inv grown after)
    (n : Nat) (value : α) (state : ParseState) (h : inv value state) :
    Ends (growWithin step n value) input state inv := by
  induction n generalizing value state with
  | zero => exact .pure h
  | succ n ih =>
      unfold growWithin
      apply (hstep value state h).bind
      intro grown? after hinv
      cases grown? with
      | none => exact .pure hinv
      | some grown => exact ih grown after hinv

theorem grow_ends {value : α}
    (hstep : ∀ value state, inv value state → Ends (step value) input state fun grown? after =>
      match grown? with
      | none => inv value after
      | some grown => inv grown after)
    (h : inv value state) : Ends (grow step value) input state inv := by
  unfold grow
  exact .left (growWithin_ends inv hstep _ value state h)

private theorem growWithin_done
    (hstep : ∀ value state, inv value state → Ends (step value) input state fun grown? after =>
      match grown? with
      | none => done value after
      | some grown => inv grown after ∧ state.position < after.position)
    (hover : ∀ value state, inv value state → input.sentence.size ≤ state.position →
      done value state)
    (n : Nat) (value : α) (state : ParseState) (h : inv value state)
    (hn : input.sentence.left state.position ≤ n) :
    Ends (growWithin step n value) input state done := by
  induction n generalizing value state with
  | zero =>
      have hsize : input.sentence.size ≤ state.position := by
        unfold Sentence.left at hn
        omega
      exact .pure (hover value state h hsize)
  | succ n ih =>
      unfold growWithin
      apply (hstep value state h).bind
      intro grown? after hround
      cases grown? with
      | none => exact .pure hround
      | some grown =>
          obtain ⟨hinv, hprogress⟩ := hround
          have hleft : input.sentence.left after.position ≤ n := by
            unfold Sentence.left at hn ⊢
            omega
          exact ih grown after hinv hleft

/-- When every step takes a symbol, a value grows until the step declines or no symbol is
left. -/
theorem grow_done {value : α}
    (hstep : ∀ value state, inv value state → Ends (step value) input state fun grown? after =>
      match grown? with
      | none => done value after
      | some grown => inv grown after ∧ state.position < after.position)
    (hover : ∀ value state, inv value state → input.sentence.size ≤ state.position →
      done value state)
    (h : inv value state) : Ends (grow step value) input state done := by
  unfold grow
  exact .left (growWithin_done inv hstep hover _ value state h (Nat.le_refl _))

end Grow

section Commas

variable {item : Parse α} (inv : List α → ParseState → Prop)
  {done : List α → ParseState → Prop}

/-- `inv` holds in front of an item, behind the comma if it is not the first, and `done`
behind an item that may be the last. -/
theorem separatedWithin_ends
    (hitem : ∀ values state, inv values state → Ends item input state fun value after =>
      done (values ++ [value]) after ∧
        (input.sentence.kindAt after.position = .comma →
          inv (values ++ [value]) { after with position := after.position + 1 }))
    (n : Nat) (values : List α) (state : ParseState) (h : inv values state) :
    Ends (separatedWithin item n) input state fun more after => done (values ++ more) after := by
  induction n generalizing values state with
  | zero =>
      unfold separatedWithin
      exact (hitem values state h).bind fun value after hround => .pure hround.1
  | succ n ih =>
      unfold separatedWithin
      apply (hitem values state h).bind
      intro value after hround
      apply (eat_ends (by decide)).bind
      intro comma? next hcomma
      rcases hcomma with ⟨hyes, rfl, rfl⟩ | ⟨hno, rfl, rfl⟩
      · apply (ih (values ++ [value]) _ (hround.2 hyes)).bind
        intro more last hlast
        exact .pure (by simpa using hlast)
      · exact .pure hround.1

theorem separated_ends
    (hitem : ∀ values state, inv values state → Ends item input state fun value after =>
      done (values ++ [value]) after ∧
        (input.sentence.kindAt after.position = .comma →
          inv (values ++ [value]) { after with position := after.position + 1 }))
    (h : inv [] state) : Ends (separated item) input state done := by
  unfold separated
  exact .left (separatedWithin_ends inv hitem _ [] state h)

theorem listedWithin_ends {closing : TokenKind}
    (hstop : ∀ values state, inv values state → done values state)
    (hitem : ∀ values state, inv values state → Ends item input state fun value after =>
      done (values ++ [value]) after ∧
        (input.sentence.kindAt after.position = .comma →
          inv (values ++ [value]) { after with position := after.position + 1 }))
    (n : Nat) (values : List α) (state : ParseState) (h : inv values state) :
    Ends (listedWithin item closing n) input state fun more after =>
      done (values ++ more) after := by
  induction n generalizing values state with
  | zero => exact .pure (by simpa using hstop values state h)
  | succ n ih =>
      unfold listedWithin atEnd check
      refine .ask fun closed hclosed => .ask fun ended hended => ?_
      refine .ite (fun hyes => ?_) fun hno => ?_
      · exact .pure (by simpa using hstop values state h)
      · apply (hitem values state h).bind
        intro value after hround
        apply (eat_ends (by decide)).bind
        intro comma? next hcomma
        rcases hcomma with ⟨hyes, rfl, rfl⟩ | ⟨hno, rfl, rfl⟩
        · apply (ih (values ++ [value]) _ (hround.2 hyes)).bind
          intro more last hlast
          exact .pure (by simpa using hlast)
        · exact .pure hround.1

theorem listed_ends {closing : TokenKind}
    (hstop : ∀ values state, inv values state → done values state)
    (hitem : ∀ values state, inv values state → Ends item input state fun value after =>
      done (values ++ [value]) after ∧
        (input.sentence.kindAt after.position = .comma →
          inv (values ++ [value]) { after with position := after.position + 1 }))
    (h : inv [] state) : Ends (listed item closing) input state done := by
  unfold listed
  exact .left (listedWithin_ends inv hstop hitem _ [] state h)

end Commas
end TolerantSyntax.Parse
