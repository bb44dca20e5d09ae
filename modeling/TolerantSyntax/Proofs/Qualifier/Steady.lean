import TolerantSyntax.Proofs.Parse.Covers

/-!
# Parses that keep a qualifier whole

A place is clear when it does not come between a `readonly` and the `ref` behind it.  A parse
is steady when it leads from clear places to clear ones; its rules follow the lines of a
production.  A steady parse may also rely on never going back in front of a given place.
-/

namespace TolerantSyntax

/-- The index is not in front of the place, and not between a `readonly` and its `ref`. -/
structure Sentence.Clear (sentence : Sentence) (place index : Nat) : Prop where
  le : place ≤ index
  whole : ∀ front, index = front + 1 → sentence.kindAt front = .readonlyKw →
    sentence.kindAt index ≠ .refKw

namespace Sentence.Clear

variable {sentence : Sentence} {place other index : Nat}

theorem start : sentence.Clear 0 0 := ⟨Nat.le_refl _, nofun⟩

theorem here (h : sentence.Clear place index) : sentence.Clear index index :=
  ⟨Nat.le_refl _, h.whole⟩

theorem from_le (h : sentence.Clear place index) (hle : other ≤ place) :
    sentence.Clear other index := ⟨Nat.le_trans hle h.le, h.whole⟩

theorem of_kind (hle : place ≤ index) (hkind : sentence.kindAt index ≠ .refKw) :
    sentence.Clear place index := ⟨hle, fun _ _ _ => hkind⟩

theorem behind (hle : place ≤ index + 1)
    (h : sentence.kindAt index = .readonlyKw → sentence.kindAt (index + 1) ≠ .refKw) :
    sentence.Clear place (index + 1) := by
  refine ⟨hle, fun front hat hreadonly => ?_⟩
  obtain rfl : index = front := by omega
  exact h hreadonly

theorem next (hle : place ≤ index + 1) (hkind : sentence.kindAt index ≠ .readonlyKw) :
    sentence.Clear place (index + 1) := behind hle fun hreadonly => absurd hreadonly hkind

theorem taken {kind : TokenKind} (h : sentence.Clear place index)
    (hat : sentence.kindAt index = kind) (hkind : kind ≠ .readonlyKw) :
    sentence.Clear place (index + 1) :=
  next (Nat.le_succ_of_le h.le) (by rw [hat]; exact hkind)

end Sentence.Clear

namespace Sentence

variable {sentence : Sentence} {place index n : Nat}

theorem seekWithin_clear {set : TokenKind → Bool} (hset : set .refKw = false)
    (hle : place ≤ index) (hn : sentence.left index ≤ n) :
    sentence.Clear place (sentence.seekWithin set n index) := by
  induction n generalizing index with
  | zero =>
      have hkind := kindAt_of_left (Nat.le_zero.mp hn)
      exact .of_kind hle (by rw [seekWithin, hkind]; decide)
  | succ n ih =>
      rw [seekWithin]
      split
      · rename_i hkind
        refine .of_kind hle fun href => ?_
        rw [href, hset] at hkind
        exact absurd hkind (by decide)
      · exact ih (Nat.le_succ_of_le hle) (left_succ_le hn)

theorem memberBoundaryWithin_clear {starts : TokenKind → Bool}
    (hstarts : starts .readonlyKw = true) (n depth : Nat) (h : sentence.Clear place index) :
    sentence.Clear place (sentence.memberBoundaryWithin starts n depth index) := by
  induction n generalizing depth index with
  | zero => exact h
  | succ n ih =>
      simp only [memberBoundaryWithin]
      split
      · exact h
      · rename_i hkind
        have hnext : sentence.Clear place (index + 1) := by
          refine .next (Nat.le_succ_of_le h.le) fun hreadonly => hkind ?_
          rw [hreadonly, hstarts, Bool.or_true]
        split
        · exact ih _ hnext
        · exact h
        · exact ih _ hnext
        · exact ih _ hnext

theorem accessorBoundaryWithin_clear (depth : Nat) (hle : place ≤ index)
    (hn : sentence.left index ≤ n) :
    sentence.Clear place (sentence.accessorBoundaryWithin n depth index) := by
  induction n generalizing depth index with
  | zero =>
      have hkind := kindAt_of_left (Nat.le_zero.mp hn)
      exact .of_kind hle (by rw [accessorBoundaryWithin, hkind]; decide)
  | succ n ih =>
      have hnext : ∀ depth,
          sentence.Clear place (sentence.accessorBoundaryWithin n depth (index + 1)) :=
        fun depth => ih depth (Nat.le_succ_of_le hle) (left_succ_le hn)
      simp only [accessorBoundaryWithin]
      split
      · rename_i hkind
        exact .of_kind hle (by rw [hkind]; decide)
      · exact hnext _
      · rename_i hkind
        exact .of_kind hle (by rw [hkind]; decide)
      · exact hnext _
      · rename_i hkind
        exact .next (Nat.le_succ_of_le hle) (by rw [hkind]; decide)
      · split
        · rename_i hkeyword
          refine .of_kind hle fun href => ?_
          simp [accessorKeywordAt, href] at hkeyword
        · exact hnext _
      · exact hnext _

end Sentence

namespace Parse

variable {α β : Type} {input : Input} {state : ParseState} {place : Nat}
  {middle : α → Prop} {post : β → Prop}

def Kept (input : Input) (place : Nat) (post : α → Prop) (value : α) (after : ParseState) :
    Prop :=
  post value ∧ input.sentence.Clear place after.position

def Steady (parse : Parse α) (input : Input) (place : Nat) (post : α → Prop) : Prop :=
  ∀ state, input.sentence.Clear place state.position →
    Ends parse input state (Kept input place post)

theorem Ends.onward {parse : Parse α} {next : α → Parse β}
    (h : Ends parse input state (Kept input place middle))
    (hnext : ∀ value, middle value → Steady (next value) input place post) :
    Ends (parse >>= next) input state (Kept input place post) :=
  h.bind fun value after hvalue => hnext value hvalue.1 after hvalue.2

namespace Steady

/-! ## Steps -/

theorem pure {value : β} (h : post value) : Steady (Pure.pure value) input place post :=
  fun _ hclear => .pure ⟨h, hclear⟩

theorem imp {parse : Parse β} {stronger : β → Prop} (h : Steady parse input place stronger)
    (himp : ∀ value, stronger value → post value) : Steady parse input place post :=
  fun state hclear => (h state hclear).imp fun value _ hvalue => ⟨himp value hvalue.1, hvalue.2⟩

theorem bind {parse : Parse α} {next : α → Parse β} (h : Steady parse input place middle)
    (hnext : ∀ value, middle value → Steady (next value) input place post) :
    Steady (parse >>= next) input place post :=
  fun state hclear => (h state hclear).onward hnext

theorem map {parse : Parse α} {f : α → β}
    (h : Steady parse input place fun value => post (f value)) :
    Steady (f <$> parse) input place post := fun state hclear => .map (h state hclear)

theorem ask {question : Sentence → Nat → α} {next : α → Parse β}
    (h : ∀ answer, Steady (next answer) input place post) :
    Steady (Parse.ask question >>= next) input place post :=
  fun state hclear => .ask fun answer _ => h answer state hclear

theorem position {next : Nat → Parse β} (h : ∀ index, Steady (next index) input place post) :
    Steady (Parse.position >>= next) input place post := ask h

theorem rangeFrom {start : Nat} {next : TokenRange → Parse β}
    (h : ∀ range, Steady (next range) input place post) :
    Steady (Parse.rangeFrom start >>= next) input place post := ask h

theorem left {next : Nat → Parse β} (h : ∀ n, Steady (next n) input place post) :
    Steady (Parse.left >>= next) input place post := ask h

theorem kind {next : TokenKind → Parse β}
    (h : ∀ state kind, input.sentence.Clear place state.position →
      input.sentence.kindAt state.position = kind →
        Ends (next kind) input state (Kept input place post)) :
    Steady (Parse.kind >>= next) input place post :=
  fun state hclear => .kind fun kind hkind => h state kind hclear hkind

theorem ite {condition : Prop} [Decidable condition] {yes no : Parse β}
    (hyes : condition → Steady yes input place post)
    (hno : ¬condition → Steady no input place post) :
    Steady (if condition then yes else no) input place post :=
  fun state hclear => .ite (fun h => hyes h state hclear) fun h => hno h state hclear

theorem checkIf {kind : TokenKind} {yes no : Parse β}
    (hyes : ∀ state, input.sentence.Clear place state.position →
      input.sentence.kindAt state.position = kind →
        Ends yes input state (Kept input place post))
    (hno : Steady no input place post) :
    Steady (check kind >>= fun answer => if answer then yes else no) input place post :=
  fun state hclear => .checkIf (hyes state hclear) fun _ => hno state hclear

theorem join {condition : Prop} [Decidable condition] {yes no : Parse α} {next : α → Parse β}
    (h : Steady (if condition then yes else no) input place middle)
    (hnext : ∀ value, middle value → Steady (next value) input place post) :
    Steady (if condition then yes >>= next else no >>= next) input place post :=
  fun state hclear => (h state hclear).join fun value after hvalue =>
    hnext value hvalue.1 after hvalue.2

theorem skip {condition : Prop} [Decidable condition] {step : Parse PUnit}
    {next : PUnit → Parse β} (hstep : Steady step input place fun _ => True)
    (hnext : Steady (next ⟨⟩) input place post) :
    Steady (if condition then step >>= next else next ⟨⟩) input place post :=
  ite (fun _ => hstep.bind fun _ _ => hnext) fun _ => hnext

theorem note {finding : Finding} {next : Unit → Parse β}
    (h : Steady (next ()) input place post) :
    Steady (Parse.note finding >>= next) input place post :=
  fun state hclear => h { state with findings := finding :: state.findings } hclear

theorem noteHere {finding : Nat → Finding} {next : Unit → Parse β}
    (h : Steady (next ()) input place post) :
    Steady (Parse.noteHere finding >>= next) input place post :=
  fun state hclear =>
    h { state with findings := finding state.position :: state.findings } hclear

theorem noted (finding : Finding) : Steady (Parse.note finding) input place fun _ => True :=
  fun _ hclear => ⟨trivial, hclear⟩

theorem notedHere (finding : Nat → Finding) :
    Steady (Parse.noteHere finding) input place fun _ => True :=
  fun _ hclear => ⟨trivial, hclear⟩

theorem complete {start : Nat} {make : ExprInfo → Expr} {post : Expr → Prop}
    (h : ∀ info, post (make info)) : Steady (Parse.complete start make) input place post :=
  fun _ hclear => ⟨h _, hclear⟩

end Steady

theorem advance_whole (hclear : input.sentence.Clear place state.position)
    (h : input.sentence.kindAt state.position = .readonlyKw →
      input.sentence.kindAt (state.position + 1) ≠ .refKw) :
    Ends advance input state (Kept input place fun index => index = state.position) := by
  by_cases heof : input.sentence.kindAt state.position = .eof
  · have hstays : advance input state = (state.position, state) := by
      unfold advance
      rw [if_pos heof]
    unfold Ends
    rw [hstays]
    exact ⟨rfl, hclear⟩
  · unfold Ends
    rw [Ends.advance_eq heof]
    exact ⟨rfl, .behind (Nat.le_succ_of_le hclear.le) h⟩

theorem advance_kept (hclear : input.sentence.Clear place state.position)
    (hkind : input.sentence.kindAt state.position ≠ .readonlyKw) :
    Ends advance input state (Kept input place fun index => index = state.position) :=
  advance_whole hclear fun hreadonly => absurd hreadonly hkind

/-- A symbol of which something is known that is not true of a `readonly`. -/
theorem advance_told {kind : TokenKind} {question : TokenKind → α} {answer : α}
    (hclear : input.sentence.Clear place state.position)
    (hkind : input.sentence.kindAt state.position = kind) (htold : question kind = answer)
    (hother : question .readonlyKw ≠ answer) :
    Ends advance input state (Kept input place fun index => index = state.position) := by
  refine advance_kept hclear fun hreadonly => hother ?_
  rw [← htold, ← hkind, hreadonly]

theorem advance_next {kind : TokenKind} (hclear : input.sentence.Clear place state.position)
    (hkind : input.sentence.kindAt state.position = kind) (heof : kind ≠ .eof)
    (hreadonly : kind ≠ .readonlyKw) :
    Ends advance input state (Kept input (place + 1) fun index => index = state.position) := by
  unfold Ends
  rw [Ends.advance_eq (by rw [hkind]; exact heof)]
  refine ⟨rfl, .next (Nat.succ_le_succ hclear.le) ?_⟩
  rw [hkind]
  exact hreadonly

theorem moveTo_kept {target : Sentence → Nat → Nat}
    (h : input.sentence.Clear place (target input.sentence state.position)) :
    Ends (moveTo target) input state (Kept input place fun _ => True) := ⟨trivial, h⟩

theorem Kept.from_next {value : α} {after : ParseState}
    (h : Kept input (place + 1) middle value after) : Kept input place middle value after :=
  ⟨h.1, h.2.from_le (Nat.le_succ _)⟩

theorem eat_steady {kind : TokenKind} (hkind : kind ≠ .readonlyKw) :
    Steady (eat kind) input place fun _ => True := by
  unfold eat
  refine .checkIf (fun state hclear hat => ?_) (.pure trivial)
  exact (advance_kept hclear (by rw [hat]; exact hkind)).onward fun _ _ => .pure trivial

theorem eatIf_steady {condition : Prop} [Decidable condition] {kind : TokenKind}
    (hkind : kind ≠ .readonlyKw) :
    Steady (if condition then eat kind else pure none) input place fun _ => True :=
  .ite (fun _ => eat_steady hkind) fun _ => .pure trivial

theorem expect_steady {kind : TokenKind} (hkind : kind ≠ .readonlyKw) :
    Steady (expect kind) input place fun _ => True := by
  unfold expect
  refine (eat_steady hkind).bind fun index? _ => ?_
  cases index? with
  | none => exact .noteHere (.pure trivial)
  | some index => exact .pure trivial

theorem advanceAny_steady {set : TokenSet} (hset : set.contains .readonlyKw = false) :
    Steady (whenever (checkAny set) advance) input place fun _ => True := by
  intro state hclear
  refine whenever_ends (fun hkind => ?_) fun _ => ⟨trivial, hclear⟩
  have hne : input.sentence.kindAt state.position ≠ .readonlyKw := by
    intro hreadonly
    rw [hreadonly, hset] at hkind
    cases hkind
  exact (advance_kept hclear hne).imp fun _ _ h => ⟨trivial, h.2⟩

theorem synchronize_steady {set : TokenSet} (hset : set.contains .refKw = false) :
    Steady (synchronize set) input place fun _ => True :=
  fun _ hclear => ⟨trivial, Sentence.seekWithin_clear hset hclear.le (Nat.le_refl _)⟩

/-! ## Trying and repeating -/

section Repeating

variable {good : α → Prop}

def SteadySome (item : Parse (Option α)) (input : Input) (place : Nat) (good : α → Prop) :
    Prop :=
  Steady item input place fun value? => ∀ value ∈ value?, good value

theorem whenever_steady {question : Sentence → Nat → Bool} {parse : Parse α}
    (h : ∀ state, input.sentence.Clear place state.position →
      question input.sentence state.position = true →
        Ends parse input state (Kept input place good)) :
    SteadySome (whenever (Parse.ask question) parse) input place good := by
  intro state hclear
  refine whenever_ends (fun hyes => ?_) fun _ => ⟨nofun, hclear⟩
  refine (h state hclear hyes).imp fun value after hvalue => ⟨?_, hvalue.2⟩
  rintro _ ⟨⟩
  exact hvalue.1

theorem attempt_kept {parse : Parse (Option α)}
    (hclear : input.sentence.Clear place state.position)
    (h : Ends parse input state (Kept input place fun value? => ∀ value ∈ value?, good value)) :
    Ends (attempt parse) input state
      (Kept input place fun value? => ∀ value ∈ value?, good value) := by
  refine attempt_ends (h.imp fun value? after hvalue => ?_)
  cases value? with
  | none => exact ⟨nofun, hclear⟩
  | some value => exact hvalue

theorem many_steady {item : Parse (Option α)} (hitem : SteadySome item input place good) :
    Steady (many item) input place fun values => ∀ value ∈ values, good value := by
  intro state hclear
  refine many_ends (fun values after =>
    (∀ value ∈ values, good value) ∧ input.sentence.Clear place after.position) ?_
    ⟨nofun, hclear⟩
  rintro values before ⟨hvalues, hbefore⟩
  refine (hitem before hbefore).imp fun value? after hvalue => ?_
  cases value? with
  | none => exact ⟨hvalues, hvalue.2⟩
  | some value =>
      refine ⟨List.forall_mem_append.mpr ⟨hvalues, ?_⟩, hvalue.2⟩
      exact List.forall_mem_singleton.mpr (hvalue.1 value rfl)

theorem grow_steady {step : α → Parse (Option α)} {value : α}
    (hstep : ∀ value, good value → SteadySome (step value) input place good)
    (h : good value) : Steady (grow step value) input place good := by
  intro state hclear
  refine grow_ends (fun value after => good value ∧ input.sentence.Clear place after.position) ?_
    ⟨h, hclear⟩
  rintro value before ⟨hvalue, hbefore⟩
  refine (hstep value hvalue before hbefore).imp fun grown? after hgrown => ?_
  cases grown? with
  | none => exact ⟨hvalue, hgrown.2⟩
  | some grown => exact ⟨hgrown.1 grown rfl, hgrown.2⟩

theorem separated_steady {item : Parse α} (hitem : Steady item input place good) :
    Steady (separated item) input place fun values => ∀ value ∈ values, good value := by
  intro state hclear
  refine separated_ends (fun values after =>
    (∀ value ∈ values, good value) ∧ input.sentence.Clear place after.position) ?_
    ⟨nofun, hclear⟩
  rintro values before ⟨hvalues, hbefore⟩
  refine (hitem before hbefore).imp fun value after hvalue => ?_
  have hmore := List.forall_mem_append.mpr ⟨hvalues, List.forall_mem_singleton.mpr hvalue.1⟩
  exact ⟨⟨hmore, hvalue.2⟩, fun hcomma => ⟨hmore, hvalue.2.taken hcomma nofun⟩⟩

theorem listed_steady {item : Parse α} {closing : TokenKind}
    (hitem : Steady item input place good) :
    Steady (listed item closing) input place fun values => ∀ value ∈ values, good value := by
  intro state hclear
  refine listed_ends (fun values after =>
    (∀ value ∈ values, good value) ∧ input.sentence.Clear place after.position)
    (fun _ _ h => h) ?_ ⟨nofun, hclear⟩
  rintro values before ⟨hvalues, hbefore⟩
  refine (hitem before hbefore).imp fun value after hvalue => ?_
  have hmore := List.forall_mem_append.mpr ⟨hvalues, List.forall_mem_singleton.mpr hvalue.1⟩
  exact ⟨⟨hmore, hvalue.2⟩, fun hcomma => ⟨hmore, hvalue.2.taken hcomma nofun⟩⟩

end Repeating

theorem braced_steady {items : Parse (List α)} {good : List α → Prop} (hnil : good [])
    (hitems : Steady items input place good) :
    Steady (braced items) input place fun (_, values, _) => good values := by
  unfold braced
  refine (expect_steady (by decide)).bind fun opening? _ => ?_
  cases opening? with
  | none => exact .pure hnil
  | some opening =>
      refine hitems.bind fun values hvalues => ?_
      exact (expect_steady (by decide)).bind fun closing? _ => .pure hvalues

end Parse
end TolerantSyntax
