import Mathlib.Data.List.Forall2
import TolerantSyntax.Proofs.Parse.Known
import TolerantSyntax.Proofs.RoundTrip.Term

/-!
# Sequences that are read back

Where what a loop takes is known piece by piece, so is what it ends with.  `Row` tells that
things stand side by side in a sentence, `Listed` that they stand with commas between them, and
`Leads` that the front of something is read and the loop goes on behind it.
-/

namespace TolerantSyntax

section Standing

variable {β : Type}

/-- Things stand side by side from a place up to another one.  `stands` tells where a single
one starts and where it stops. -/
inductive Sentence.Row (sentence : Sentence) (stands : β → Nat → Nat → Prop) :
    Nat → Nat → List β → Prop where
  | nil {start : Nat} : sentence.Row stands start start []
  | cons {value : β} {rest : List β} {start middle stop : Nat}
      (hkind : sentence.kindAt start ≠ .eof) (hlt : start < middle)
      (hvalue : stands value start middle) (hrest : sentence.Row stands middle stop rest) :
      sentence.Row stands start stop (value :: rest)

/-- Things stand with commas between them. -/
inductive Sentence.Listed (sentence : Sentence) (stands : β → Nat → Nat → Prop) :
    Nat → Nat → List β → Prop where
  | last {value : β} {start stop : Nat} (hle : start ≤ stop) (hvalue : stands value start stop) :
      sentence.Listed stands start stop [value]
  | more {value : β} {rest : List β} {start comma stop : Nat} (hle : start ≤ comma)
      (hvalue : stands value start comma) (hcomma : sentence.kindAt comma = .comma)
      (hrest : sentence.Listed stands (comma + 1) stop rest) :
      sentence.Listed stands start stop (value :: rest)

section Signs

variable {sentence : Sentence} {holds : Nat → List Sign → Prop} {signs : β → List Sign}

theorem Sentence.Listed.of_signs
    (happend : ∀ index left right,
      holds index (left ++ right) → holds index left ∧ holds (index + left.length) right)
    (hsign : ∀ index sign rest, holds index (sign :: rest) → sentence.kindAt index = sign.kind)
    {closing : TokenKind} {first start : Nat} (hfirst : first ≤ start) {value : β} {rest : List β}
    (h : holds start
      (signs value ++ (rest.flatMap (fun value => .fixed .comma :: signs value) ++
        [.fixed closing]))) :
    sentence.Listed
      (fun value start stop => first ≤ start ∧ holds start (signs value) ∧
        stop = start + (signs value).length ∧
        (sentence.kindAt stop = .comma ∨ sentence.kindAt stop = closing))
      start (start + ((signs value).length +
        (rest.flatMap fun value => .fixed .comma :: signs value).length)) (value :: rest) := by
  induction rest generalizing start value with
  | nil =>
      obtain ⟨hvalue, hbehind⟩ := happend _ _ _ h
      exact .last (Nat.le_add_right _ _)
        ⟨hfirst, hvalue, rfl, .inr (hsign _ (.fixed closing) [] hbehind)⟩
  | cons next rest ih =>
      obtain ⟨hvalue, hbehind⟩ := happend _ _ _ h
      have hcomma : sentence.kindAt (start + (signs value).length) = .comma :=
        hsign _ (.fixed .comma) _ hbehind
      obtain ⟨-, hrest⟩ := happend _ [.fixed .comma] (signs next ++ (rest.flatMap _ ++ _))
        (by simpa using hbehind)
      have hlisted := ih (by simp only [List.length_singleton]; omega) hrest
      have hstop : start + ((signs value).length +
          ((next :: rest).flatMap fun value => .fixed .comma :: signs value).length) =
          start + (signs value).length + 1 + ((signs next).length +
            (rest.flatMap fun value => .fixed .comma :: signs value).length) := by
        simp only [List.flatMap_cons, List.length_append, List.length_cons]
        omega
      rw [hstop]
      exact .more (Nat.le_add_right _ _) ⟨hfirst, hvalue, rfl, .inl hcomma⟩ hcomma hlisted

/-- Where things are written side by side, they stand in a row, and behind each comes the next
one or the end of the row. -/
theorem Sentence.Row.of_signs
    (happend : ∀ index left right,
      holds index (left ++ right) → holds index left ∧ holds (index + left.length) right)
    {first start last : Nat} {values all : List β} (hfirst : first ≤ start)
    (hall : ∀ value ∈ values, value ∈ all)
    (hsome : ∀ value ∈ values, signs value ≠ [])
    (hkind : ∀ value ∈ values, ∀ index, holds index (signs value) →
      sentence.kindAt index ≠ .eof)
    (hlast : last = start + (values.flatMap signs).length)
    (h : holds start (values.flatMap signs)) :
    sentence.Row
      (fun value start stop => first ≤ start ∧ holds start (signs value) ∧
        stop = start + (signs value).length ∧
        (stop = last ∨ ∃ next ∈ all, holds stop (signs next)))
      start last values := by
  induction values generalizing start with
  | nil =>
      obtain rfl : last = start := hlast
      exact .nil
  | cons value rest ih =>
      obtain ⟨-, hrest⟩ := List.forall_mem_cons.mp hall
      obtain ⟨hnonempty, hothers⟩ := List.forall_mem_cons.mp hsome
      obtain ⟨heof, hkinds⟩ := List.forall_mem_cons.mp hkind
      rw [List.flatMap_cons] at h hlast
      obtain ⟨hvalue, hbehind⟩ := happend _ _ _ h
      rw [List.length_append] at hlast
      refine .cons (heof start hvalue)
        (Nat.lt_add_of_pos_right (List.length_pos_iff.mpr hnonempty)) ⟨hfirst, hvalue, rfl, ?_⟩
        (ih (by omega) hrest hothers hkinds (by omega) hbehind)
      cases rest with
      | nil => exact .inl (by simpa using hlast.symm)
      | cons next rest =>
          exact .inr ⟨next, hrest next List.mem_cons_self, (happend _ _ _ hbehind).1⟩

end Signs
end Standing

namespace Parse

variable {α β : Type} {input : Input} {state : ParseState}

/-- Nothing was noted but tuple types, which only the versions before them report. -/
def Quiet (before after : ParseState) : Prop :=
  ∃ places : List Nat, after.findings = places.map (.uses .tuples) ++ before.findings

namespace Quiet

variable {before middle after : ParseState}

theorem of_findings (h : after.findings = before.findings) : Quiet before after := ⟨[], h⟩

theorem trans (hfirst : Quiet before middle) (hsecond : Quiet middle after) :
    Quiet before after := by
  obtain ⟨places, hplaces⟩ := hfirst
  obtain ⟨more, hmore⟩ := hsecond
  exact ⟨more ++ places, by rw [hmore, hplaces, List.map_append, List.append_assoc]⟩

end Quiet

/-- Something has been read as it should be: the place is behind it, and nothing is reported. -/
structure Back (reads : α → Prop) (stop : Nat) (before : ParseState) (value : α)
    (after : ParseState) : Prop where
  reads : reads value
  position : after.position = stop
  quiet : Quiet before after

/-- A step, or an item that may decline, has given something. -/
def Given (post : α → ParseState → Prop) (value? : Option α) (after : ParseState) : Prop :=
  ∃ value, value? = some value ∧ post value after

section Items

variable {stands : β → Nat → Nat → Prop} {reads : β → α → Prop} {values : List β} {stop : Nat}

theorem manyWithin_back {item : Parse (Option α)}
    (hitem : ∀ value ∈ values, ∀ before middle, stands value before.position middle →
      Ends item input before (Given (Back (reads value) middle before)))
    (hlast : ∀ after, after.position = stop → Declines item input after)
    (hrow : input.sentence.Row stands state.position stop values) (n : Nat)
    (hn : input.sentence.left state.position ≤ n) :
    Ends (manyWithin item n) input state (Back (List.Forall₂ reads values) stop state) := by
  generalize hstart : state.position = start at hrow hn
  induction hrow generalizing state n with
  | nil => exact manyWithin_declined (hlast state hstart) ⟨.nil, hstart, .of_findings rfl⟩ n
  | @cons value rest start middle stop hkind hlt hvalue hrest ih =>
      obtain ⟨hfirst, hall⟩ := List.forall_mem_cons.mp hitem
      subst hstart
      have hsize := Sentence.lt_size_of_kindAt hkind
      unfold Sentence.left at hn
      obtain ⟨n, rfl⟩ : ∃ k, n = k + 1 := ⟨n - 1, by omega⟩
      unfold manyWithin
      refine (hfirst state middle hvalue).bind ?_
      rintro _ after ⟨got, rfl, hgot⟩
      have hmore := ih hall hlast n hgot.position (by unfold Sentence.left; omega)
      exact hmore.bind fun more last hlast =>
        .pure ⟨.cons hgot.reads hlast.reads, hlast.position, hgot.quiet.trans hlast.quiet⟩

theorem many_back {item : Parse (Option α)}
    (hitem : ∀ value ∈ values, ∀ before middle, stands value before.position middle →
      Ends item input before (Given (Back (reads value) middle before)))
    (hlast : ∀ after, after.position = stop → Declines item input after)
    (hrow : input.sentence.Row stands state.position stop values) :
    Ends (many item) input state (Back (List.Forall₂ reads values) stop state) := by
  unfold many
  exact .left (manyWithin_back hitem hlast hrow _ (Nat.le_refl _))

theorem separatedWithin_back {item : Parse α}
    (hitem : ∀ value ∈ values, ∀ before after, stands value before.position after →
      Ends item input before (Back (reads value) after before))
    (hlast : input.sentence.kindAt stop ≠ .comma)
    (hlisted : input.sentence.Listed stands state.position stop values) (n : Nat)
    (hn : input.sentence.left state.position ≤ n) :
    Ends (separatedWithin item n) input state (Back (List.Forall₂ reads values) stop state) := by
  generalize hstart : state.position = start at hlisted hn
  induction hlisted generalizing state n with
  | @last value start stop hle hvalue =>
      subst hstart
      have hvalue := (List.forall_mem_singleton.mp hitem) state stop hvalue
      refine separatedWithin_last n (hvalue.imp fun got after hgot => ?_)
      exact ⟨by rwa [hgot.position], .cons hgot.reads .nil, hgot.position, hgot.quiet⟩
  | @more value rest start comma stop hle hvalue hcomma hrest ih =>
      obtain ⟨hfirst, hall⟩ := List.forall_mem_cons.mp hitem
      subst hstart
      have hsize := Sentence.lt_size_of_kindAt (by rw [hcomma]; decide)
      unfold Sentence.left at hn
      obtain ⟨n, rfl⟩ : ∃ k, n = k + 1 := ⟨n - 1, by omega⟩
      refine separatedWithin_more ((hfirst state comma hvalue).imp fun got after hgot => ?_)
      refine ⟨by rwa [hgot.position], ?_⟩
      have hmore : Ends (separatedWithin item n) input
          { after with position := after.position + 1 }
          (Back (List.Forall₂ reads rest) stop { after with position := after.position + 1 }) :=
        ih hall hlast n (congrArg (· + 1) hgot.position) (by unfold Sentence.left; omega)
      exact hmore.imp fun more last hlast =>
        ⟨.cons hgot.reads hlast.reads, hlast.position, hgot.quiet.trans hlast.quiet⟩

theorem separated_back {item : Parse α}
    (hitem : ∀ value ∈ values, ∀ before after, stands value before.position after →
      Ends item input before (Back (reads value) after before))
    (hlast : input.sentence.kindAt stop ≠ .comma)
    (hlisted : input.sentence.Listed stands state.position stop values) :
    Ends (separated item) input state (Back (List.Forall₂ reads values) stop state) := by
  unfold separated
  exact .left (separatedWithin_back hitem hlast hlisted _ (Nat.le_refl _))

end Items

/-- `parse` reads something and goes on with `step`: the whole loop ends as it does from behind
what has been read on. -/
def Leads (parse : Parse α) (step : α → Parse (Option α)) (input : Input) (state : ParseState)
    (read : α → ParseState → Prop) : Prop :=
  ∀ post : α → ParseState → Prop,
    (∀ value after n, read value after → input.sentence.left after.position ≤ n →
      Ends (growWithin step n value) input after post) →
    Ends parse input state post

namespace Leads

variable {parse : Parse α} {step : α → Parse (Option α)} {read longer : α → ParseState → Prop}

theorem of_first {first : Parse α} (hfirst : Ends first input state read) :
    Leads (first >>= Parse.grow step) step input state read := by
  intro post hpost
  refine hfirst.bind fun value after hvalue => ?_
  exact .left (hpost value after _ hvalue (Nat.le_refl _))

theorem grow (h : Leads parse step input state read)
    (hkind : ∀ value after, read value after → input.sentence.kindAt after.position ≠ .eof)
    (hstep : ∀ value after, read value after →
      Ends (step value) input after
        (Given fun grown last => longer grown last ∧ after.position < last.position)) :
    Leads parse step input state longer := by
  intro post hpost
  refine h post fun value after n hvalue hn => ?_
  have hlt := Sentence.lt_size_of_kindAt (hkind value after hvalue)
  unfold Sentence.left at hn
  obtain ⟨n, rfl⟩ : ∃ k, n = k + 1 := ⟨n - 1, by omega⟩
  unfold growWithin
  refine (hstep value after hvalue).bind ?_
  rintro _ last ⟨grown, rfl, hgrown, hprogress⟩
  exact hpost grown last n hgrown (by unfold Sentence.left; omega)

theorem ends (h : Leads parse step input state read)
    (hstop : ∀ value after, read value after → Declines (step value) input after) :
    Ends parse input state read :=
  h _ fun value after n hvalue _ => growWithin_declined (hstop value after hvalue) hvalue n

end Leads
end Parse
end TolerantSyntax
