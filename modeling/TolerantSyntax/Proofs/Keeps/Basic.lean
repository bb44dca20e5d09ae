import TolerantSyntax.Proofs.Builds.Type
import TolerantSyntax.Proofs.Layout.Reveals
import TolerantSyntax.Proofs.Sentence

/-!
# Parses that keep the expressions good

`Keeps good bound input parse` says that the expressions that are complete behind `parse` are
good when those in front of it are, as long as at most `bound` symbols are left.  Only
completing an expression can break this, so every production keeps what the expressions inside
it keep.  The bound is what the nesting of expressions goes by: behind a symbol it is one less.
-/

namespace TolerantSyntax

/-- Only from the end on there is an end of file. -/
def Sentence.Unbroken (sentence : Sentence) : Prop :=
  ∀ index, sentence.kindAt index = .eof → sentence.size ≤ index

theorem Sentence.unbroken_ofTokens (tokens : TokenList) : (ofTokens tokens).Unbroken :=
  fun _ => kindAt_ofTokens_eq_eof.mp

structure ParseState.All (good : Expr → Prop) (bound : Nat) (input : Input) (state : ParseState) :
    Prop where
  left : input.sentence.left state.position ≤ bound
  good : ∀ expr ∈ state.exprs.toList, good expr

theorem ParseState.All.weaken {good : Expr → Prop} {bound : Nat} {input : Input}
    {state : ParseState} (h : state.All good bound input) : state.All good (bound + 1) input :=
  ⟨Nat.le_succ_of_le h.left, h.good⟩

theorem ParseState.All.skip {good : Expr → Prop} {bound : Nat} {input : Input}
    {state : ParseState} (h : state.All good bound input) {place : Nat}
    (hplace : state.position ≤ place) : All good bound input { state with position := place } :=
  ⟨Nat.le_trans (Nat.sub_le_sub_left hplace _) h.left, h.good⟩

theorem ParseState.All.behind {good : Expr → Prop} {bound : Nat} {input : Input}
    {state : ParseState} (h : state.All good (bound + 1) input)
    (hlt : state.position < input.sentence.size) {place : Nat} (hplace : state.position < place) :
    All good bound input { state with position := place } := by
  have hleft := h.left
  refine ⟨?_, h.good⟩
  unfold Sentence.left at hleft ⊢
  dsimp only
  omega

@[simp] theorem TypeSyntax.exprs_layout (type : TypeSyntax) : type.layout.exprs = [] := by
  simp [layout, Layout.node, type.exprsOf_parts]

namespace Parse

variable {α β : Type} {good : Expr → Prop} {bound : Nat} {input : Input} {parse : Parse α}

def Keeps (good : Expr → Prop) (bound : Nat) (input : Input) (parse : Parse α) : Prop :=
  ∀ state, state.All good bound input →
    Ends parse input state fun _ after => after.All good bound input

theorem complete_all {start : Nat} {make : ExprInfo → Expr} {state : ParseState}
    (hstate : state.All good bound input) (h : ∀ info, good (make info)) :
    Ends (complete start make) input state fun expr after =>
      after.All good bound input ∧ after.position = state.position ∧
        ∃ info, expr = make info := by
  refine ⟨⟨hstate.left, fun expr hmem => ?_⟩, rfl, _, rfl⟩
  have hcases : expr ∈ state.exprs.toList ∨
      expr = make ⟨state.exprs.size, ⟨start, max start state.position⟩⟩ := by
    simpa [complete, ExprTable.add, ExprTable.toList] using hmem
  rcases hcases with hold | rfl
  · exact hstate.good expr hold
  · exact h _

theorem advance_all {state : ParseState} (hinput : input.sentence.Unbroken)
    (hstate : state.All good (bound + 1) input) :
    Ends advance input state fun _ after => after.All good bound input := by
  by_cases hkind : input.sentence.kindAt state.position = .eof
  · refine (Ends.advance_at_end hkind).imp ?_
    rintro token after rfl
    have hleft : input.sentence.left after.position = 0 := Nat.sub_eq_zero_of_le (hinput _ hkind)
    exact ⟨by omega, hstate.good⟩
  · unfold Ends
    rw [Ends.advance_eq hkind]
    exact hstate.behind (Sentence.lt_size_of_kindAt hkind) (Nat.lt_succ_self _)

namespace Keeps

theorem ends {state : ParseState} (h : Keeps good bound input parse)
    (hstate : state.All good bound input) :
    Ends parse input state fun _ after => after.All good bound input := h state hstate

theorem pure (value : α) : Keeps good bound input (Pure.pure value) := fun _ h => h

theorem bind {next : α → Parse β} (h : Keeps good bound input parse)
    (hnext : ∀ value, Keeps good bound input (next value)) :
    Keeps good bound input (parse >>= next) :=
  fun state hstate => (h state hstate).bind fun value after hafter => hnext value after hafter

theorem map (h : Keeps good bound input parse) (f : α → β) :
    Keeps good bound input (f <$> parse) := h

theorem ite {condition : Prop} [Decidable condition] {yes no : Parse α}
    (hyes : Keeps good bound input yes) (hno : Keeps good bound input no) :
    Keeps good bound input (if condition then yes else no) := by
  split
  · exact hyes
  · exact hno

theorem of_gives {parts : α → List Layout} (h : Gives parse input parts)
    (hnone : ∀ value, Layout.exprsOf (parts value) = []) : Keeps good bound input parse := by
  intro state hstate
  refine (h state).imp fun value after hbuilds => ?_
  have hexprs := hbuilds.exprs
  rw [hnone, List.append_nil] at hexprs
  exact ⟨(hstate.skip hbuilds.forward).left, hexprs ▸ hstate.good⟩

theorem behind {next : Nat → Parse β} (hinput : input.sentence.Unbroken)
    (hnext : ∀ token, Keeps good bound input (next token)) :
    Keeps good (bound + 1) input (Parse.advance >>= next) := by
  intro state hstate
  refine (advance_all hinput hstate).bind fun token before hbefore => ?_
  exact (hnext token before hbefore).imp fun value after hafter => hafter.weaken

theorem ask (question : Sentence → Nat → α) : Keeps good bound input (ask question) := fun _ h => h

theorem noteHere (finding : Nat → Finding) : Keeps good bound input (noteHere finding) :=
  fun _ h => ⟨h.left, h.good⟩

theorem note (finding : Finding) : Keeps good bound input (note finding) :=
  fun _ h => ⟨h.left, h.good⟩

theorem moveTo {place : Sentence → Nat → Nat} (h : ∀ index, index ≤ place input.sentence index) :
    Keeps good bound input (moveTo place) := fun _ hstate => hstate.skip (h _)

theorem synchronize (set : TokenSet) : Keeps good bound input (synchronize set) :=
  moveTo fun _ => (Sentence.seekWithin_bounds _ _ _).1

theorem advance : Keeps good bound input advance := of_gives advance_passes fun _ => rfl

theorem eat (kind : TokenKind) : Keeps good bound input (eat kind) :=
  (ask _).bind fun _ => .ite (advance.bind fun _ => .pure _) (.pure _)

theorem expect (kind : TokenKind) : Keeps good bound input (expect kind) := by
  refine (eat kind).bind fun index? => ?_
  cases index? with
  | some index => exact .pure _
  | none => exact (noteHere _).bind fun _ => .pure _

theorem complete {start : Nat} {make : ExprInfo → Expr} (h : ∀ info, good (make info)) :
    Keeps good bound input (complete start make) :=
  fun _ hstate => (complete_all hstate h).imp fun _ _ hend => hend.1

theorem lookAhead (parse : Parse α) : Keeps good bound input (lookAhead parse) := fun _ h => h

theorem many {item : Parse (Option α)} (h : Keeps good bound input item) :
    Keeps good bound input (many item) := by
  intro state hstate
  refine many_ends (fun _ after => after.All good bound input) (fun _ before hbefore => ?_) hstate
  refine (h before hbefore).imp fun value? after hafter => ?_
  cases value? <;> exact hafter

theorem grow {step : α → Parse (Option α)} (h : ∀ value, Keeps good bound input (step value))
    (value : α) : Keeps good bound input (grow step value) := by
  intro state hstate
  refine grow_ends (fun _ after => after.All good bound input)
    (fun value before hbefore => ?_) hstate
  refine (h value before hbefore).imp fun grown? after hafter => ?_
  cases grown? <;> exact hafter

theorem separated (h : Keeps good bound input parse) :
    Keeps good bound input (separated parse) := by
  intro state hstate
  refine separated_ends (fun _ after => after.All good bound input)
    (fun _ before hbefore => ?_) hstate
  exact (h before hbefore).imp fun _ _ hafter => ⟨hafter, fun _ => hafter.skip (Nat.le_succ _)⟩

theorem listed (h : Keeps good bound input parse) (closing : TokenKind) :
    Keeps good bound input (listed parse closing) := by
  intro state hstate
  refine listed_ends (fun _ after => after.All good bound input) (fun _ _ hdone => hdone)
    (fun _ before hbefore => ?_) hstate
  exact (h before hbefore).imp fun _ _ hafter => ⟨hafter, fun _ => hafter.skip (Nat.le_succ _)⟩

theorem whenever {condition : Parse Bool} (hcondition : Keeps good bound input condition)
    (h : Keeps good bound input parse) : Keeps good bound input (whenever condition parse) :=
  hcondition.bind fun _ => .ite (h.bind fun _ => .pure _) (.pure _)

theorem unlessClosed (h : Keeps good bound input parse) :
    Keeps good bound input (unlessClosed parse) :=
  whenever (ask _) h

theorem braced {items : Parse (List α)} (h : Keeps good bound input items) :
    Keeps good bound input (braced items) := by
  refine (expect _).bind fun opening? => ?_
  cases opening? with
  | none => exact .pure _
  | some opening => exact h.bind fun _ => (expect _).bind fun _ => .pure _

theorem type : Keeps good bound input type := of_gives type_gives fun type => by simp

theorem qualifiedType (qualifier? : Option RefQualifier) :
    Keeps good bound input (qualifiedType qualifier?) := by
  cases qualifier? with
  | none => exact type
  | some qualifier => exact type.bind fun _ => (ask _).bind fun _ => .pure _

theorem refQualifier? : Keeps good bound input refQualifier? := by
  refine (ask _).bind fun _ => .ite ?_ ((ask _).bind fun _ => .ite ?_ (.pure _))
  · exact (noteHere _).bind fun _ => advance.bind fun _ => advance.bind fun _ => .pure _
  · exact (noteHere _).bind fun _ => advance.bind fun _ => .pure _

end Keeps

def KeepsWith (good : Expr → Prop) (bound : Nat) (input : Input) (result : α → Prop)
    (parse : Parse α) : Prop :=
  ∀ state, state.All good bound input → Ends parse input state fun value after =>
    after.All good bound input ∧ result value

variable {result : α → Prop}

theorem Keeps.bindWith {result : β → Prop} {next : α → Parse β} (h : Keeps good bound input parse)
    (hnext : ∀ value, KeepsWith good bound input result (next value)) :
    KeepsWith good bound input result (parse >>= next) :=
  fun state hstate => (h state hstate).bind fun value after hafter => hnext value after hafter

namespace KeepsWith

theorem keeps (h : KeepsWith good bound input result parse) : Keeps good bound input parse :=
  fun state hstate => (h state hstate).imp fun _ _ hafter => hafter.1

theorem pure {value : α} (h : result value) : KeepsWith good bound input result (Pure.pure value) :=
  fun _ hstate => ⟨hstate, h⟩

theorem bind {after : β → Prop} {next : α → Parse β} (h : KeepsWith good bound input result parse)
    (hnext : ∀ value, result value → KeepsWith good bound input after (next value)) :
    KeepsWith good bound input after (parse >>= next) :=
  fun state hstate => (h state hstate).bind fun value after hafter =>
    hnext value hafter.2 after hafter.1

theorem ite {condition : Prop} [Decidable condition] {yes no : Parse α}
    (hyes : KeepsWith good bound input result yes) (hno : KeepsWith good bound input result no) :
    KeepsWith good bound input result (if condition then yes else no) := by
  split
  · exact hyes
  · exact hno

theorem complete {start : Nat} {make : ExprInfo → Expr} {result : Expr → Prop}
    (h : ∀ info, good (make info)) (hresult : ∀ info, result (make info)) :
    KeepsWith good bound input result (complete start make) := by
  intro state hstate
  refine (complete_all hstate h).imp ?_
  rintro expr after ⟨hafter, -, info, rfl⟩
  exact ⟨hafter, hresult info⟩

theorem grow {step : α → Parse (Option α)}
    (h : ∀ value, result value →
      KeepsWith good bound input (fun grown? => ∀ grown ∈ grown?, result grown) (step value))
    {value : α} (hvalue : result value) : KeepsWith good bound input result (grow step value) := by
  intro state hstate
  refine grow_ends (fun value after => after.All good bound input ∧ result value) ?_
    ⟨hstate, hvalue⟩
  rintro value before ⟨hbefore, hvalue⟩
  refine (h value hvalue before hbefore).imp ?_
  rintro grown? after ⟨hafter, hgrown⟩
  cases grown? with
  | none => exact ⟨hafter, hvalue⟩
  | some grown => exact ⟨hafter, hgrown grown rfl⟩

theorem behind {result : β → Prop} {next : Nat → Parse β} (hinput : input.sentence.Unbroken)
    (hnext : ∀ token, KeepsWith good bound input result (next token)) :
    KeepsWith good (bound + 1) input result (Parse.advance >>= next) := by
  intro state hstate
  refine (advance_all hinput hstate).bind fun token before hbefore => ?_
  exact (hnext token before hbefore).imp fun value after hafter => ⟨hafter.1.weaken, hafter.2⟩

end KeepsWith
end Parse
end TolerantSyntax
