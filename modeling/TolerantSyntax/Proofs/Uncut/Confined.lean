import TolerantSyntax.Proofs.Progress.Round
import TolerantSyntax.Proofs.Uncut.Looks

/-!
# Parses that stay in front of the end

A parse is confined when it does the same however the sentence goes on behind its end.  The rules
follow the lines of a production.  A loop or a recursion is bounded by the symbols that are left,
and of these a longer sentence has more; but the bound makes no difference as long as it is not
below the symbols left, so both may be read with the larger one.
-/

namespace TolerantSyntax.Parse

variable {κ α β : Type} {wide narrow : Sentence} {state : ParseState}

/-- From here both sentences are read alike, and not beyond the end of the second. -/
structure ReadsAlike (parse : Parse α) (wide narrow : Sentence) (state : ParseState) : Prop where
  same : parse (.ofSentence wide) state = parse (.ofSentence narrow) state
  within : (parse (.ofSentence narrow) state).2.position ≤ narrow.size

/-- However a sentence goes on behind its end, it is read alike. -/
structure Confined (parse : Parse α) : Prop where
  alike : ∀ {wide narrow : Sentence}, wide.Continues narrow →
    ∀ {state : ParseState}, state.position ≤ narrow.size → ReadsAlike parse wide narrow state

namespace ReadsAlike

theorem bind {first : Parse α} {next : α → Parse β} (h : ReadsAlike first wide narrow state)
    (hnext : ∀ value {after : ParseState}, after.position ≤ narrow.size →
      ReadsAlike (next value) wide narrow after) :
    ReadsAlike (first >>= next) wide narrow state := by
  obtain ⟨hsame, hwithin⟩ := h
  have hbehind := hnext (first (.ofSentence narrow) state).1 hwithin
  refine ⟨?_, hbehind.within⟩
  have hwide : (first >>= next) (.ofSentence wide) state =
      next (first (.ofSentence wide) state).1 (.ofSentence wide)
        (first (.ofSentence wide) state).2 := rfl
  rw [hwide, hsame]
  exact hbehind.same

theorem ask {question : Sentence → Nat → α} {next : α → Parse β}
    (h : question wide state.position = question narrow state.position)
    (hnext : ∀ answer, question narrow state.position = answer →
      ReadsAlike (next answer) wide narrow state) :
    ReadsAlike (Parse.ask question >>= next) wide narrow state := by
  obtain ⟨hsame, hwithin⟩ := hnext _ rfl
  refine ⟨?_, hwithin⟩
  have hwide : (Parse.ask question >>= next) (.ofSentence wide) state =
      next (question wide state.position) (.ofSentence wide) state := rfl
  rw [hwide, h]
  exact hsame

theorem kind {next : TokenKind → Parse β} (h : wide.Continues narrow)
    (hle : state.position ≤ narrow.size)
    (hnext : ∀ kind, narrow.kindAt state.position = kind →
      ReadsAlike (next kind) wide narrow state) :
    ReadsAlike (Parse.kind >>= next) wide narrow state := ask (h.kindAt_eq hle) hnext

theorem peek {next : TokenKind → Parse β} (h : wide.Continues narrow)
    (hkind : narrow.kindAt state.position ≠ .eof)
    (hnext : ∀ kind, ReadsAlike (next kind) wide narrow state) :
    ReadsAlike (Parse.peek 1 >>= next) wide narrow state :=
  ask (h.kindAt_succ hkind) fun kind _ => hnext kind

/-- Symbols that are there are passed in both sentences. -/
theorem moveOver {n : Nat} (hle : state.position ≤ narrow.size)
    (hleft : n ≤ narrow.left state.position) :
    ReadsAlike (Parse.moveTo fun _ index => index + n) wide narrow state := by
  refine ⟨rfl, ?_⟩
  unfold Sentence.left at hleft
  change state.position + n ≤ narrow.size
  omega

theorem read (recursion : Recursion κ β) (key : κ) (h : wide.Continues narrow)
    (hrising : recursion.Rising (.ofSentence narrow))
    (hopens : recursion.opens key (narrow.kindAt state.position))
    (hwithin : ∀ n, ReadsAlike (recursion.within n key) wide narrow state) :
    ReadsAlike (recursion.read key) wide narrow state := by
  refine ⟨?_, (hwithin (narrow.left state.position)).within⟩
  have hwide : recursion.read key (.ofSentence wide) state =
      recursion.within (wide.left state.position) key (.ofSentence wide) state := rfl
  have hnarrow : recursion.read key (.ofSentence narrow) state =
      recursion.within (narrow.left state.position) key (.ofSentence narrow) state := rfl
  rw [hwide, hnarrow, (hwithin _).same]
  exact hrising.within_eq _ _ key state hopens (h.left_le _) (Nat.le_refl _)

end ReadsAlike

namespace Confined

theorem pure (value : α) : Confined (Pure.pure value : Parse α) :=
  ⟨fun _ _ hle => ⟨rfl, hle⟩⟩

theorem bind {first : Parse α} {next : α → Parse β} (h : Confined first)
    (hnext : ∀ value, Confined (next value)) : Confined (first >>= next) :=
  ⟨fun hcontinues _ hle =>
    (h.alike hcontinues hle).bind fun value _ => (hnext value).alike hcontinues⟩

theorem map {parse : Parse α} (h : Confined parse) (f : α → β) : Confined (f <$> parse) :=
  h.bind fun value => .pure (f value)

theorem ite {condition : Prop} [Decidable condition] {yes no : Parse α} (hyes : Confined yes)
    (hno : Confined no) : Confined (if condition then yes else no) := by
  by_cases h : condition
  · simpa only [if_pos h] using hyes
  · simpa only [if_neg h] using hno

theorem ask {question : Sentence → Nat → α} (h : Sentence.Local question) :
    Confined (Parse.ask question) :=
  ⟨fun hcontinues _ hle => ⟨congrArg (·, _) (h.same hcontinues hle), hle⟩⟩

theorem position : Confined position := ask (.const _)

theorem rangeFrom (start : Nat) : Confined (rangeFrom start) := ask (.const _)

theorem kind : Confined kind := ask (.ofKind id)

theorem check (kind : TokenKind) : Confined (check kind) := ask (.ofKind (· == kind))

theorem checkAny (set : TokenSet) : Confined (checkAny set) := ask (.ofKind set.contains)

theorem atEnd : Confined atEnd := check .eof

theorem advance : Confined advance := by
  constructor
  intro wide narrow h state hle
  have hkind : wide.kindAt state.position = narrow.kindAt state.position := h.kindAt_eq hle
  refine ⟨?_, ?_⟩
  · change (if wide.kindAt state.position = .eof then _ else _) =
      if narrow.kindAt state.position = .eof then _ else _
    rw [hkind]
  · change (if narrow.kindAt state.position = .eof then (state.position, state)
      else (state.position, { state with position := state.position + 1 })).2.position ≤ _
    split
    · exact hle
    · rename_i hsymbol
      exact Sentence.lt_size_of_kindAt hsymbol

theorem moveTo {place : Sentence → Nat → Nat} (hskips : Sentence.Skips place)
    (h : Sentence.Local place) : Confined (moveTo place) := by
  constructor
  intro wide narrow hcontinues state hle
  refine ⟨?_, ?_⟩
  · change ((), { state with position := place wide state.position }) =
      ((), { state with position := place narrow state.position })
    rw [h.same hcontinues hle]
  · have hbound := (hskips narrow state.position).2
    unfold Sentence.left at hbound
    change place narrow state.position ≤ narrow.size
    omega

theorem synchronize (set : TokenSet) : Confined (synchronize set) :=
  moveTo (fun _ _ => Sentence.seekWithin_bounds _ _ _) (.seek _)

theorem noteHere (finding : Nat → Finding) : Confined (noteHere finding) :=
  ⟨fun _ _ hle => ⟨rfl, hle⟩⟩

theorem note (finding : Finding) : Confined (note finding) := noteHere fun _ => finding

theorem complete (start : Nat) (make : ExprInfo → Expr) : Confined (complete start make) :=
  ⟨fun _ _ hle => ⟨rfl, hle⟩⟩

theorem eat (kind : TokenKind) : Confined (eat kind) :=
  (check kind).bind fun _ => .ite (advance.bind fun _ => .pure _) (.pure _)

theorem expect (kind : TokenKind) : Confined (expect kind) := by
  refine (eat kind).bind fun index? => ?_
  cases index? with
  | some index => exact .pure _
  | none => exact (noteHere _).bind fun _ => .pure _

theorem lookAhead {parse : Parse α} (h : Confined parse) : Confined (lookAhead parse) := by
  constructor
  intro wide narrow hcontinues state hle
  refine ⟨?_, hle⟩
  unfold Parse.lookAhead
  rw [(h.alike hcontinues hle).same]

theorem attempt {parse : Parse (Option α)} (h : Confined parse) : Confined (attempt parse) := by
  constructor
  intro wide narrow hcontinues state hle
  obtain ⟨hsame, hwithin⟩ := h.alike hcontinues hle
  refine ⟨?_, ?_⟩
  · unfold Parse.attempt
    rw [hsame]
  · unfold Parse.attempt
    generalize parse (.ofSentence narrow) state = result at hwithin
    obtain ⟨value?, after⟩ := result
    cases value? with
    | none => exact hle
    | some value => exact hwithin

theorem many {item : Parse (Option α)} (h : Confined item)
    (hround : ∀ input, Round item input) : Confined (many item) := by
  have hwithin : ∀ n, Confined (manyWithin item n) := by
    intro n
    induction n with
    | zero => exact .pure _
    | succ n ih =>
        refine h.bind fun value? => ?_
        cases value? with
        | none => exact .pure _
        | some value => exact ih.bind fun _ => .pure _
  exact ⟨fun hcontinues _ hle =>
    .read (.many item) () hcontinues (hround _).many trivial fun n =>
      (hwithin n).alike hcontinues hle⟩

theorem grow {step : α → Parse (Option α)} (h : ∀ value, Confined (step value))
    (hround : ∀ input value, Round (step value) input) (value : α) :
    Confined (grow step value) := by
  have hwithin : ∀ n value, Confined (growWithin step n value) := by
    intro n
    induction n with
    | zero => exact fun value => .pure _
    | succ n ih =>
        refine fun value => (h value).bind fun grown? => ?_
        cases grown? with
        | none => exact .pure _
        | some grown => exact ih grown
  exact ⟨fun hcontinues _ hle =>
    .read (.grow step) value hcontinues (Round.grow (hround _)) trivial fun n =>
      (hwithin n value).alike hcontinues hle⟩

theorem separated {item : Parse α} (h : Confined item) (honward : ∀ input, Onward item input) :
    Confined (separated item) := by
  have hwithin : ∀ n, Confined (separatedWithin item n) := by
    intro n
    induction n with
    | zero => exact h.bind fun _ => .pure _
    | succ n ih =>
        refine h.bind fun _ => (eat _).bind fun comma? => ?_
        cases comma? with
        | none => exact .pure _
        | some comma => exact ih.bind fun _ => .pure _
  exact ⟨fun hcontinues _ hle =>
    .read (.separated item) () hcontinues (honward _).separated trivial fun n =>
      (hwithin n).alike hcontinues hle⟩

theorem listed {item : Parse α} (h : Confined item) (honward : ∀ input, Onward item input)
    (closing : TokenKind) : Confined (listed item closing) := by
  have hwithin : ∀ n, Confined (listedWithin item closing n) := by
    intro n
    induction n with
    | zero => exact .pure _
    | succ n ih =>
        refine (check _).bind fun closed => atEnd.bind fun ended => ?_
        refine .ite (.pure _) (h.bind fun _ => (eat _).bind fun comma? => ?_)
        cases comma? with
        | none => exact .pure _
        | some comma => exact ih.bind fun _ => .pure _
  exact ⟨fun hcontinues _ hle =>
    .read (.listed item closing) () hcontinues ((honward _).listed closing) trivial fun n =>
      (hwithin n).alike hcontinues hle⟩

theorem whenever {condition : Parse Bool} {parse : Parse α} (hcondition : Confined condition)
    (h : Confined parse) : Confined (whenever condition parse) :=
  hcondition.bind fun _ => .ite (h.bind fun _ => .pure _) (.pure _)

theorem unlessClosed {parse : Parse α} (h : Confined parse) : Confined (unlessClosed parse) :=
  whenever (ask (.ofKind fun kind => kind != .rBrace && kind != .eof)) h

theorem braced {items : Parse (List α)} (h : Confined items) : Confined (braced items) := by
  refine (expect _).bind fun opening? => ?_
  cases opening? with
  | none => exact .pure _
  | some opening => exact h.bind fun _ => (expect _).bind fun _ => .pure _

end Confined
end TolerantSyntax.Parse
