import TolerantSyntax.Proofs.Reads.Member
import TolerantSyntax.Proofs.RoundTrip.Field

/-!
# A field that does not end

Where the initial value of a field ends in front of what is neither a comma nor a semicolon,
the field notes that the semicolon is absent.  Whatever is read after that, the error stays.
-/

namespace TolerantSyntax.Parse

variable {α β : Type} {input : Input} {state : ParseState} {stop : Nat}

/-- An error has been noted. -/
def Reported (state : ParseState) : Prop := 0 < state.errors

theorem Reads.reported {parse : Parse α} {pieces : α → List Piece}
    (h : Reads parse input pieces) (hstate : Reported state) :
    Ends parse input state fun _ after => Reported after :=
  (h state).imp fun _ _ hcovers => Nat.lt_of_lt_of_le hstate hcovers.errors_le

/-- What the first item brings about and every other keeps holds of the whole list. -/
theorem many_begins {item : Parse (Option α)} {post : ParseState → Prop}
    (hkind : input.sentence.kindAt state.position ≠ .eof)
    (hfirst : Ends item input state fun value? after => value?.isSome = true ∧ post after)
    (hitem : ∀ before, post before → Ends item input before fun _ after => post after) :
    Ends (many item) input state fun _ after => post after := by
  have hlt := Sentence.lt_size_of_kindAt hkind
  obtain ⟨n, hn⟩ : ∃ n, input.sentence.left state.position = n + 1 :=
    ⟨input.sentence.left state.position - 1, by unfold Sentence.left; omega⟩
  unfold many
  refine .left ?_
  rw [hn]
  unfold manyWithin
  refine hfirst.bind ?_
  rintro (_ | value) after ⟨hsome, hpost⟩
  · cases hsome
  · refine Ends.bind (manyWithin_ends (fun _ after => post after) ?_ n [] after hpost)
      fun _ last hlast => .pure hlast
    intro values before hbefore
    exact (hitem before hbefore).imp fun value? last hlast => by cases value? <;> exact hlast

theorem membersWithin_reported {context : ParseContext} {n : Nat}
    (hstart : context.memberStart.contains (input.sentence.kindAt state.position) = true)
    (hkind : input.sentence.kindAt state.position ≠ .eof ∧
      input.sentence.kindAt state.position ≠ .rBrace)
    (hmember : Ends (member (membersWithin n) context) input state fun _ after =>
      Reported after) :
    Ends (membersWithin (n + 1) context) input state fun _ after => Reported after := by
  have hadvance {before : ParseState} (hbefore : Reported before) :
      Ends advance input before fun _ after => Reported after := by
    by_cases heof : input.sentence.kindAt before.position = .eof
    · unfold Ends
      rwa [Ends.advance_at_end heof]
    · exact (advance_covers heof).imp fun _ _ h => Nat.lt_of_lt_of_le hbefore h.2.2.errors_le
  have hsome : Ends (someMember (membersWithin n) context) input state fun _ after =>
      Reported after := by
    unfold someMember
    refine .position (.ask fun answer hanswer => ?_)
    obtain rfl : answer = true := hanswer.symm.trans hstart
    refine hmember.bind fun member after hafter => .position (.ite (fun _ => ?_) fun _ => ?_)
    · exact (hadvance hafter).bind fun _ last hlast => .rangeFrom (.pure hlast)
    · exact .pure hafter
  unfold membersWithin
  refine many_begins hkind.1 ?_ fun before hbefore => ?_
  · unfold hasMember
    refine whenever_ends (fun _ => hsome.imp fun _ _ hafter => ⟨rfl, hafter⟩) fun hno => ?_
    simp [hkind] at hno
  · unfold hasMember
    refine whenever_ends (fun hhas => ?_) fun _ => hbefore
    simp only [Bool.and_eq_true, bne_iff_ne] at hhas
    exact (someMember_covers (membersWithin_covers n) hhas.1 context).imp fun _ _ h =>
      Nat.lt_of_lt_of_le hbefore h.2.covers.errors_le

theorem class_reported {n : Nat} {context : ParseContext}
    (hclass : input.sentence.kindAt state.position = .classKw)
    (hname : input.sentence.kindAt (state.position + 1) = .identifier)
    (hopening : input.sentence.kindAt (state.position + 1 + 1) = .lBrace)
    (hmembers : Ends (membersWithin n context.enterType) input
      { state with position := state.position + 1 + 1 + 1 } fun _ after => Reported after) :
    Ends (member (membersWithin n) context) input state fun _ after => Reported after := by
  have hbody : Ends (braced (membersWithin n context.enterType)) input
      { state with position := state.position + 1 + 1 } fun _ after => Reported after := by
    unfold braced
    refine .expectTaken hopening (by decide) (hmembers.bind fun values after hafter => ?_)
    exact ((expect_covers (by decide)).reported hafter).bind fun _ last hlast => .pure hlast
  refine class_ends _ _ hclass fun head => ?_
  unfold typeDecl
  refine .advance (by simp [hclass]) (.expectTaken hname (by decide) ?_)
  refine (typeParameters?_declines (by simp [hopening])).bind ?_
  refine (baseTypes_none (by simp [hopening])).bind ?_
  rintro _ _ ⟨rfl, rfl⟩
  refine hbody.bind fun body after hafter => ?_
  exact ((eat_covers (by decide)).reported hafter).bind fun _ last hlast =>
    .memberInfo fun info => .pure hlast

theorem objectField_reported (nested : ParseContext → Parse (List Member)) (context : ParseContext)
    (hobject : input.sentence.kindAt state.position = .objectKw)
    (hname : input.sentence.kindAt (state.position + 1) = .identifier)
    (heq : input.sentence.kindAt (state.position + 1 + 1) = .eq)
    (hvalue : Ends variableValue input { state with position := state.position + 1 + 1 + 1 }
      (ReadTo (fun _ _ => True) stop))
    (hcomma : input.sentence.kindAt stop ≠ .comma)
    (hsemicolon : input.sentence.kindAt stop ≠ .semicolon) :
    Ends (member nested context) input state fun _ after => Reported after := by
  refine objectField_ends nested context hobject hname heq fun head type => ?_
  have hdeclarator : Ends declarator input { state with position := state.position + 1 }
      (ReadTo (fun declarator _ => ∃ value, declarator.value? = some value ∧ True) stop) :=
    declarator_initialized hname heq hvalue
  have hdeclarators : Ends declarators input { state with position := state.position + 1 }
      fun _ after => after.position = stop := by
    unfold declarators separated
    refine .left (separatedWithin_last _ (hdeclarator.imp fun _ after hafter => ?_))
    exact ⟨by rwa [hafter.position], hafter.position⟩
  unfold fieldDecl
  refine hdeclarators.bind fun _ after hafter => ?_
  refine (expect_ends (by decide)).bind ?_
  rintro _ _ (⟨hyes, -, -⟩ | ⟨-, -, rfl⟩)
  · exact absurd (hafter ▸ hyes) hsemicolon
  · refine .memberInfo fun info => .pure ?_
    simp [Reported, ParseState.errors, Finding.isError]

theorem compilationUnit_unended {word : Nat → Spelling} {behind : List Sign}
    (hshows : input.sentence.Shows word 0
      (.fixed .classKw :: ⟨.identifier, "C", false⟩ :: .fixed .lBrace :: .fixed .objectKw ::
        ⟨.identifier, "f", false⟩ :: .fixed .eq :: behind))
    (hvalue : Ends variableValue input { ParseState.start with position := 6 }
      (ReadTo (fun _ _ => True) stop))
    (hcomma : input.sentence.kindAt stop ≠ .comma)
    (hsemicolon : input.sentence.kindAt stop ≠ .semicolon) :
    Ends compilationUnit input .start fun _ after => Reported after := by
  have hfield := hshows.tail.tail.tail
  have hclass : input.sentence.kindAt 0 = .classKw := hshows.kind
  have hobject : input.sentence.kindAt 3 = .objectKw := hfield.kind
  have heq : input.sentence.kindAt 5 = .eq := hfield.tail.tail.kind
  have hsize := Sentence.lt_size_of_kindAt (by rw [heq]; decide)
  obtain ⟨n, hn⟩ : ∃ n, input.sentence.left ParseState.start.position = n + 1 + 1 :=
    ⟨input.sentence.size - 2, by
      simp only [Sentence.left, ParseState.start]
      omega⟩
  have hmember : Ends (member (membersWithin n) ParseContext.none.enterType) input
      { ParseState.start with position := 3 } fun _ after => Reported after :=
    objectField_reported _ _ hobject hfield.tail.kind heq hvalue hcomma hsemicolon
  have hinner : Ends (membersWithin (n + 1) ParseContext.none.enterType) input
      { ParseState.start with position := 3 } fun _ after => Reported after :=
    membersWithin_reported (by rw [hobject]; decide +kernel) (by rw [hobject]; decide) hmember
  have houter : Ends (member (membersWithin (n + 1)) .none) input .start
      fun _ after => Reported after :=
    class_reported hclass hshows.tail.kind hshows.tail.tail.kind hinner
  have hfirst : input.sentence.kindAt ParseState.start.position = .classKw := hclass
  unfold compilationUnit members
  refine Ends.bind (.left ?_) fun _ after hafter => .position (.pure hafter)
  rw [hn]
  exact membersWithin_reported (by rw [hfirst]; decide +kernel) (by rw [hfirst]; decide) houter

end TolerantSyntax.Parse
