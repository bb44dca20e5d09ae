import TolerantSyntax.Proofs.Parse.Gives
import TolerantSyntax.Proofs.Recovery.Gathers

/-!
# Parses that gather entries

`Collects parse input entries` says that from every state the entries of what `parse` gives
are gathered on its way.  A symbol is no entry and is passed; a `}` is passed only behind
the `{` that it closes.
-/

namespace TolerantSyntax

/-- Whether a symbol of the kind may be taken without a look at the braces around it. -/
def TokenKind.isPlain : TokenKind → Bool
  | .eof | .rBrace => false
  | _ => true

theorem TokenKind.isPlain_of_ne {kind : TokenKind} (heof : kind ≠ .eof)
    (hbrace : kind ≠ .rBrace) : kind.isPlain = true := by
  unfold isPlain
  split <;> simp_all

theorem TokenKind.ne_of_isPlain {kind : TokenKind} (h : kind.isPlain = true) :
    kind ≠ .eof ∧ kind ≠ .rBrace := by
  constructor <;> rintro rfl <;> cases h

theorem TokenSet.isPlain_of_contains {set : TokenSet} {kind : TokenKind}
    (heof : set.contains .eof = false) (hbrace : set.contains .rBrace = false)
    (h : set.contains kind = true) : kind.isPlain = true := by
  refine TokenKind.isPlain_of_ne ?_ ?_ <;> rintro rfl <;> simp_all

namespace Parse

open Sentence (Gathers)

variable {α β : Type} {input : Input} {state origin : ParseState} {entries : α → List Entry}

def Collects (parse : Parse α) (input : Input) (entries : α → List Entry) : Prop :=
  ∀ state, Ends parse input state fun value after =>
    input.sentence.Gathers (entries value) state after

theorem isPlain_of_kind {kind : TokenKind} {index : Nat}
    (h : input.sentence.kindAt index = kind) (hkind : kind.isPlain = true) :
    (input.sentence.kindAt index).isPlain = true := by rw [h, hkind]

theorem gathers_token (hkind : (input.sentence.kindAt state.position).isPlain = true) :
    input.sentence.Gathers [] state { state with position := state.position + 1 } :=
  .token (TokenKind.ne_of_isPlain hkind).1 (TokenKind.ne_of_isPlain hkind).2

theorem advance_gathers (hkind : (input.sentence.kindAt state.position).isPlain = true) :
    Ends advance input state fun index after =>
      index = state.position ∧ after.position = state.position + 1 ∧
        input.sentence.Gathers [] state after := by
  unfold Ends
  rw [Ends.advance_eq (TokenKind.ne_of_isPlain hkind).1]
  exact ⟨rfl, rfl, gathers_token hkind⟩

theorem gated_gathers {feature : Feature} {next : Nat → Parse β}
    {post : β → ParseState → Prop}
    (hkind : (input.sentence.kindAt state.position).isPlain = true)
    (h : ∀ after, after.position = state.position + 1 →
      input.sentence.Gathers [] state after → Ends (next state.position) input after post) :
    Ends (noteHere (.uses feature) >>= fun _ => advance >>= next) input state post := by
  refine .noteHere (.advance (TokenKind.ne_of_isPlain hkind).1 (h _ rfl ?_))
  exact (gathers_token hkind).noted rfl (Nat.le_succ _)

theorem eat_collects {kind : TokenKind} (hkind : kind.isPlain = true) :
    Collects (eat kind) input fun _ => [] := by
  intro state
  refine (eat_ends (TokenKind.ne_of_isPlain hkind).1).imp ?_
  rintro token? after (⟨hyes, -, rfl⟩ | ⟨-, -, rfl⟩)
  · exact gathers_token (isPlain_of_kind hyes hkind)
  · exact .refl

theorem eatIf_collects {condition : Prop} [Decidable condition] {kind : TokenKind}
    (hkind : kind.isPlain = true) :
    Collects (if condition then eat kind else pure none) input fun _ => [] :=
  fun state => .ite (fun _ => eat_collects hkind state) fun _ => .pure .refl

theorem expect_collects {kind : TokenKind} (hkind : kind.isPlain = true) :
    Collects (expect kind) input fun _ => [] := by
  intro state
  refine (expect_ends (TokenKind.ne_of_isPlain hkind).1).imp ?_
  rintro token? after (⟨hyes, -, rfl⟩ | ⟨-, -, rfl⟩)
  · exact gathers_token (isPlain_of_kind hyes hkind)
  · exact Gathers.refl.noted rfl (Nat.le_refl _)

theorem advanceAny_collects {set : TokenSet} (heof : set.contains .eof = false)
    (hbrace : set.contains .rBrace = false) :
    Collects (whenever (checkAny set) advance) input fun _ => [] := by
  intro state
  refine whenever_ends (fun hkind => ?_) fun _ => .refl
  exact (advance_gathers (TokenSet.isPlain_of_contains heof hbrace hkind)).imp
    fun _ _ h => h.2.2

theorem complete_gathers {start : Nat} {make : ExprInfo → Expr}
    (h : ∀ info, info.range.start = start →
      input.sentence.Gathers (make info).entries origin state) :
    Ends (complete start make) input state fun expr after =>
      after.position = state.position ∧
        input.sentence.Gathers [.node (.expr expr)] origin after :=
  ⟨rfl, .expr ((h ⟨state.exprs.size, ⟨start, max start state.position⟩⟩ rfl).complete _)⟩

def CollectsSome (item : Parse (Option α)) (input : Input) (entries : α → List Entry) : Prop :=
  Collects item input fun value? => value?.toList.flatMap entries

theorem many_collects {item : Parse (Option α)} (hitem : CollectsSome item input entries) :
    Collects (many item) input (·.flatMap entries) := by
  intro state
  refine many_ends (fun values after =>
    input.sentence.Gathers (values.flatMap entries) state after) ?_ .refl
  intro values before hvalues
  refine (hitem before).imp fun value? after h => ?_
  have hmore := hvalues.trans h
  cases value? with
  | none => simpa using hmore
  | some value => simpa using hmore

theorem many_passes_plain {item : Parse (Option α)} (hitem : Collects item input fun _ => []) :
    Collects (many item) input fun _ => [] := by
  intro state
  refine many_ends (fun _ after => input.sentence.Gathers [] state after) ?_ .refl
  intro values before hvalues
  refine (hitem before).imp fun value? after h => ?_
  cases value? <;> exact hvalues.trans h

theorem whenever_collects {question : Sentence → Nat → Bool} {parse : Parse α}
    (h : ∀ state, question input.sentence state.position = true →
      Ends parse input state fun value after =>
        input.sentence.Gathers (entries value) state after) :
    CollectsSome (whenever (ask question) parse) input entries := by
  intro state
  refine whenever_ends (fun hyes => ?_) fun _ => .refl
  exact (h state hyes).imp fun value after hvalue => by simpa using hvalue

theorem separated_collects {item : Parse α} (hitem : Collects item input entries) :
    Collects (separated item) input (·.flatMap entries) := by
  intro state
  refine separated_ends (fun values after =>
    input.sentence.Gathers (values.flatMap entries) state after) ?_ .refl
  intro values before hvalues
  refine (hitem before).imp fun value after h => ?_
  have hmore : input.sentence.Gathers ((values ++ [value]).flatMap entries) state after := by
    simpa using hvalues.trans h
  exact ⟨hmore, fun hcomma => hmore.behind (gathers_token (isPlain_of_kind hcomma rfl))⟩

theorem listed_collects {item : Parse α} {closing : TokenKind}
    (hitem : Collects item input entries) :
    Collects (listed item closing) input (·.flatMap entries) := by
  intro state
  refine listed_ends (fun values after =>
    input.sentence.Gathers (values.flatMap entries) state after) (fun _ _ h => h) ?_ .refl
  intro values before hvalues
  refine (hitem before).imp fun value after h => ?_
  have hmore : input.sentence.Gathers ((values ++ [value]).flatMap entries) state after := by
    simpa using hvalues.trans h
  exact ⟨hmore, fun hcomma => hmore.behind (gathers_token (isPlain_of_kind hcomma rfl))⟩

theorem flatMap_nodes (values : List α) (make : α → Node) :
    values.flatMap (fun value => [Entry.node (make value)]) = (values.map make).map .node := by
  rw [List.map_map, List.map_eq_flatMap]
  rfl

section Nodes

variable {make : α → Node}

theorem separated_nodes {item : Parse α} (hitem : Collects item input fun value =>
      [.node (make value)]) :
    Collects (separated item) input fun values => (values.map make).map .node := by
  simpa only [flatMap_nodes] using separated_collects hitem

theorem listed_nodes {item : Parse α} {closing : TokenKind}
    (hitem : Collects item input fun value => [.node (make value)]) :
    Collects (listed item closing) input fun values => (values.map make).map .node := by
  simpa only [flatMap_nodes] using listed_collects hitem

end Nodes

theorem closing_gathers {gathered : List Entry}
    (hopening : input.sentence.kindAt origin.position = .lBrace)
    (h : input.sentence.Gathers gathered { origin with position := origin.position + 1 } state) :
    Ends (expect .rBrace) input state fun closing? after =>
      input.sentence.Gathers gathered origin after ∧
        (closing? = some state.position ∧ input.sentence.kindAt state.position = .rBrace ∨
          closing? = none ∧ input.sentence.kindAt state.position ≠ .rBrace) := by
  refine (expect_ends (by decide)).imp ?_
  rintro closing? after (⟨hyes, rfl, rfl⟩ | ⟨hno, rfl, rfl⟩)
  · exact ⟨.braces hopening h hyes, .inl ⟨rfl, hyes⟩⟩
  · have hpassed := (gathers_token (isPlain_of_kind hopening rfl)).trans h
    exact ⟨hpassed.noted rfl (Nat.le_refl _), .inr ⟨rfl, hno⟩⟩

theorem braced_gathers {items : Parse (List α)} {entries : List α → List Entry}
    (done : List α → ParseState → Prop) (hnil : entries [] = [])
    (hitems : input.sentence.kindAt state.position = .lBrace →
      Ends items input { state with position := state.position + 1 } fun values after =>
        input.sentence.Gathers (entries values) { state with position := state.position + 1 }
          after ∧ done values after) :
    Ends (braced items) input state fun (opening?, values, closing?) after =>
      input.sentence.Gathers (entries values) state after ∧
        ∀ opening, opening? = some opening →
          opening = state.position ∧ input.sentence.kindAt state.position = .lBrace ∧
            ∃ middle, done values middle ∧
              (closing? = some middle.position ∧
                  input.sentence.kindAt middle.position = .rBrace ∨
                closing? = none ∧ input.sentence.kindAt middle.position ≠ .rBrace) := by
  unfold braced
  refine (expect_ends (by decide)).bind ?_
  rintro opening? after₁ (⟨hopening, rfl, rfl⟩ | ⟨-, rfl, rfl⟩)
  · refine (hitems hopening).bind ?_
    rintro values after₂ ⟨hvalues, hdone⟩
    refine (closing_gathers hopening hvalues).bind ?_
    rintro closing? after₃ ⟨hbody, hclosing⟩
    refine .pure ⟨hbody, ?_⟩
    rintro _ ⟨⟩
    exact ⟨rfl, hopening, after₂, hdone, hclosing⟩
  · refine .pure ⟨?_, nofun⟩
    rw [hnil]
    exact Gathers.refl.noted rfl (Nat.le_refl _)

end Parse
end TolerantSyntax
