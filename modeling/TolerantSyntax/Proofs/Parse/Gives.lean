import TolerantSyntax.Proofs.Parse.Builds

/-!
# Giving parts

`Gives parse input parts` says that from every state the parts of what `parse` gives are
built on its way.  A symbol is either stored as a part or passed over.
-/

namespace TolerantSyntax.Parse

open Layout (Builds)

variable {α β : Type} {input : Input} {state origin : ParseState} {parts : α → List Layout}

def Gives (parse : Parse α) (input : Input) (parts : α → List Layout) : Prop :=
  ∀ state, Ends parse input state fun value after => Builds (parts value) state after

theorem Ends.and {parse : Parse α} {left right : α → ParseState → Prop}
    (hleft : Ends parse input state left) (hright : Ends parse input state right) :
    Ends parse input state fun value after => left value after ∧ right value after :=
  ⟨hleft, hright⟩

theorem advance_builds (hkind : input.sentence.kindAt state.position ≠ .eof) :
    Ends advance input state fun index after =>
      index = state.position ∧ after.position = state.position + 1 ∧
        Builds [.token index] state after := by
  unfold Ends
  rw [Ends.advance_eq hkind]
  exact ⟨rfl, rfl, .token⟩

theorem advance_token (hkind : input.sentence.kindAt state.position ≠ .eof) :
    Ends advance input state fun index after => Builds [.token index] state after :=
  (advance_builds hkind).imp fun _ _ h => h.2.2

theorem advance_opens (hkind : input.sentence.kindAt state.position ≠ .eof) :
    Ends advance input state fun index after =>
      index = state.position ∧ after.position = state.position + 1 ∧
        Builds [.implied none index] state after := by
  unfold Ends
  rw [Ends.advance_eq hkind]
  exact ⟨rfl, rfl, .opening⟩

theorem advance_passes : Gives advance input fun _ => [] := by
  intro state
  by_cases hkind : input.sentence.kindAt state.position = .eof
  · exact (Ends.advance_at_end hkind).imp fun index after h => h ▸ .refl
  · unfold Ends
    rw [Ends.advance_eq hkind]
    exact Builds.refl.skip (Nat.le_succ _)

theorem gated {feature : Feature} {next : Nat → Parse β} {post : β → ParseState → Prop}
    (hkind : input.sentence.kindAt state.position ≠ .eof)
    (h : ∀ after, after.position = state.position + 1 →
      Builds [.gate feature state.position] state after →
      Ends (next state.position) input after post) :
    Ends (noteHere (.uses feature) >>= fun _ => advance >>= next) input state post :=
  .noteHere (.advance hkind (h _ rfl (.gate feature)))

theorem note_builds {finding : Finding} {built : List Layout} (h : Builds built origin state)
    (hfinding : finding.use? = none) :
    Ends (note finding) input state fun _ after => Builds built origin after := h.noted hfinding

theorem noteHere_builds {finding : Nat → Finding}
    (hfinding : (finding state.position).use? = none) :
    Ends (noteHere finding) input state fun _ after =>
      after.position = state.position ∧ Builds [] state after :=
  ⟨rfl, Builds.refl.noted hfinding⟩

theorem eat_builds {kind : TokenKind} (hkind : kind ≠ .eof) :
    Gives (eat kind) input Layout.tokens? := by
  intro state
  refine (eat_ends hkind).imp ?_
  rintro token? after (⟨-, rfl, rfl⟩ | ⟨-, rfl, rfl⟩)
  · exact .token
  · exact .refl

theorem eat_passes {kind : TokenKind} (hkind : kind ≠ .eof) :
    Gives (eat kind) input fun _ => [] := by
  intro state
  refine (eat_ends hkind).imp ?_
  rintro token? after (⟨-, -, rfl⟩ | ⟨-, -, rfl⟩)
  · exact Builds.refl.skip (Nat.le_succ _)
  · exact .refl

theorem expect_builds {kind : TokenKind} (hkind : kind ≠ .eof) :
    Gives (expect kind) input Layout.tokens? := by
  intro state
  refine (expect_ends hkind).imp ?_
  rintro token? after (⟨-, rfl, rfl⟩ | ⟨-, rfl, rfl⟩)
  · exact .token
  · exact Builds.refl.noted rfl

theorem expect_passes {kind : TokenKind} (hkind : kind ≠ .eof) :
    Gives (expect kind) input fun _ => [] := by
  intro state
  refine (expect_ends hkind).imp ?_
  rintro token? after (⟨-, -, rfl⟩ | ⟨-, -, rfl⟩)
  · exact Builds.refl.skip (Nat.le_succ _)
  · exact Builds.refl.noted rfl

theorem rangeFrom_step {start : Nat} {next : TokenRange → Parse β}
    {post : β → ParseState → Prop} (hle : start ≤ state.position)
    (h : Ends (next ⟨start, state.position⟩) input state post) :
    Ends (rangeFrom start >>= next) input state post := by
  refine .rangeFrom ?_
  rw [Nat.max_eq_right hle]
  exact h

theorem complete_builds {start : Nat} {make : ExprInfo → Expr} (hstart : start = origin.position)
    (hmake : ∀ info, (make info).info = info)
    (h : ∀ info, info.range.start = start → Builds (make info).parts origin state) :
    Ends (complete start make) input state fun expr after =>
      Builds [expr.layout] origin after := by
  have hbuilt := h ⟨state.exprs.size, ⟨start, max start state.position⟩⟩ rfl
  have hmax : max start state.position = state.position := by
    rw [hstart]
    exact Nat.max_eq_right hbuilt.forward
  refine hbuilt.complete ?_ ?_
  · rw [Expr.range, hmake, hmax, hstart]
  · rw [Expr.id, hmake]

theorem moveTo_builds {place : Sentence → Nat → Nat} {built : List Layout}
    (h : Builds built origin state) (hplace : ∀ index, index ≤ place input.sentence index) :
    Ends (moveTo place) input state fun _ after => Builds built origin after :=
  h.skip (hplace state.position)

theorem synchronize_builds {set : TokenSet} {built : List Layout}
    (h : Builds built origin state) :
    Ends (synchronize set) input state fun _ after => Builds built origin after :=
  moveTo_builds h fun _ => (Sentence.seekWithin_bounds _ _ _).1

def GivesSome (item : Parse (Option α)) (input : Input) (parts : α → List Layout) : Prop :=
  Gives item input fun value? => value?.toList.flatMap parts

theorem many_builds {item : Parse (Option α)} (hitem : GivesSome item input parts) :
    Gives (many item) input (·.flatMap parts) := by
  intro state
  refine many_ends (fun values after => Builds (values.flatMap parts) state after) ?_ .refl
  intro values before hvalues
  refine (hitem before).imp fun value? after h => ?_
  have hmore := hvalues.trans h
  cases value? with
  | none => simpa using hmore
  | some value => simpa using hmore

theorem many_passes {item : Parse (Option α)} (hitem : Gives item input fun _ => []) :
    Gives (many item) input fun _ => [] := by
  intro state
  refine many_ends (fun _ after => Builds [] state after) ?_ .refl
  intro values before hvalues
  refine (hitem before).imp fun value? after h => ?_
  cases value? <;> exact hvalues.trans h

theorem whenever_builds {question : Sentence → Nat → Bool} {parse : Parse α}
    (h : ∀ state, question input.sentence state.position = true →
      Ends parse input state fun value after => Builds (parts value) state after) :
    GivesSome (whenever (ask question) parse) input parts := by
  intro state
  refine whenever_ends (fun hyes => ?_) fun _ => .refl
  exact (h state hyes).imp fun value after hvalue => by simpa using hvalue

theorem unlessClosed_builds {parse : Parse α} (h : Gives parse input parts) :
    GivesSome (unlessClosed parse) input parts := whenever_builds fun state _ => h state

theorem advanceAny_builds {set : TokenSet} (hset : set.contains .eof = false) :
    Gives (whenever (checkAny set) advance) input Layout.tokens? := by
  intro state
  refine whenever_ends (fun hkind => ?_) fun _ => .refl
  exact advance_token (ne_eof_of_contains hset hkind)

theorem separated_builds {item : Parse α} (hitem : Gives item input parts) :
    Gives (separated item) input (·.flatMap parts) := by
  intro state
  refine separated_ends (fun values after => Builds (values.flatMap parts) state after) ?_ .refl
  intro values before hvalues
  refine (hitem before).imp fun value after h => ?_
  have hmore : Builds ((values ++ [value]).flatMap parts) state after := by
    simpa using hvalues.trans h
  exact ⟨hmore, fun _ => hmore.skip (Nat.le_succ _)⟩

theorem listed_builds {item : Parse α} {closing : TokenKind} (hitem : Gives item input parts) :
    Gives (listed item closing) input (·.flatMap parts) := by
  intro state
  refine listed_ends (fun values after => Builds (values.flatMap parts) state after)
    (fun _ _ h => h) ?_ .refl
  intro values before hvalues
  refine (hitem before).imp fun value after h => ?_
  have hmore : Builds ((values ++ [value]).flatMap parts) state after := by
    simpa using hvalues.trans h
  exact ⟨hmore, fun _ => hmore.skip (Nat.le_succ _)⟩

theorem braced_builds {items : Parse (List α)} {parts : List α → List Layout}
    (hnil : parts [] = []) (hitems : Gives items input parts) :
    Gives (braced items) input fun (opening?, values, closing?) =>
      Layout.tokens? opening? ++ parts values ++ Layout.tokens? closing? := by
  intro state
  unfold braced
  refine (expect_builds (by decide) state).bind fun opening? after₁ hopening => ?_
  cases opening? with
  | none => exact .pure (by simpa [hnil, Layout.tokens?] using hopening)
  | some opening =>
      refine (hitems after₁).bind fun values after₂ hvalues => ?_
      refine (expect_builds (by decide) after₂).bind fun closing? after₃ hclosing => ?_
      exact .pure ((hopening.trans hvalues).trans hclosing)

end TolerantSyntax.Parse
