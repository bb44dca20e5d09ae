import TolerantSyntax.Grammar.Expr
import TolerantSyntax.Proofs.Flatten.Tree
import TolerantSyntax.Proofs.Parse.Known

/-!
# Readings that are given up

A type cannot pass the first literal or `this` of an operand: in front of it are only opening
parentheses and operators, of which a type takes `(` and `*`.  So where an operand begins
neither a cast nor type arguments are completed, and going back leaves no trace.
-/

namespace TolerantSyntax

/-- Whether an operand of literals and `this` can begin with the kind. -/
def TokenKind.leadsIn (kind : TokenKind) : Bool :=
  kind == .lParen || kind == .thisKw || kind.isLiteral || (UnaryOp.ofKind? kind).isSome

theorem TokenKind.ne_of_leadsIn {kind other : TokenKind} (h : kind.leadsIn = true)
    (hother : other.leadsIn = false) : kind ≠ other := by
  rintro rfl
  rw [h] at hother
  cases hother

theorem TokenKind.not_isPredefinedType_of_leadsIn {kind : TokenKind} (h : kind.leadsIn = true) :
    kind.isPredefinedType = false := by
  cases kind <;> first | rfl | cases h

/-- From `start` on an operand begins, whose first literal or `this` is at `stop`. -/
structure Sentence.LeadsIn (sentence : Sentence) (start stop : Nat) : Prop where
  le : start ≤ stop
  kind : ∀ index, start ≤ index → index ≤ stop → (sentence.kindAt index).leadsIn = true
  last : sentence.kindAt stop = .thisKw ∨ (sentence.kindAt stop).isLiteral = true

namespace Sentence.LeadsIn

variable {sentence : Sentence} {start stop index : Nat}

theorem of_atom (h : sentence.kindAt start = .thisKw ∨ (sentence.kindAt start).isLiteral = true) :
    sentence.LeadsIn start start where
  le := Nat.le_refl _
  kind index hstart hstop := by
    obtain rfl : index = start := Nat.le_antisymm hstop hstart
    rcases h with h | h
    · rw [h]; rfl
    · simp [TokenKind.leadsIn, h]
  last := h

theorem cons (hkind : (sentence.kindAt start).leadsIn = true)
    (h : sentence.LeadsIn (start + 1) stop) :
    sentence.LeadsIn start stop where
  le := Nat.le_of_succ_le h.le
  kind index hstart hstop := by
    rcases Nat.eq_or_lt_of_le hstart with rfl | hlt
    · exact hkind
    · exact h.kind index hlt hstop
  last := h.last

theorem last_ne (h : sentence.LeadsIn start stop) {other : TokenKind} (hthis : other ≠ .thisKw)
    (hliteral : other.isLiteral = false) : sentence.kindAt stop ≠ other := by
  rintro rfl
  rcases h.last with hlast | hlast
  · exact hthis hlast
  · rw [hliteral] at hlast
    cases hlast

theorem next (h : sentence.LeadsIn start stop) (hstop : index ≤ stop)
    (hthis : sentence.kindAt index ≠ .thisKw)
    (hliteral : (sentence.kindAt index).isLiteral = false) : index + 1 ≤ stop := by
  refine Nat.lt_of_le_of_ne hstop ?_
  rintro rfl
  exact h.last_ne hthis hliteral rfl

theorem tail (h : sentence.LeadsIn start stop) (hthis : sentence.kindAt start ≠ .thisKw)
    (hliteral : (sentence.kindAt start).isLiteral = false) : sentence.LeadsIn (start + 1) stop where
  le := h.next h.le hthis hliteral
  kind index hstart hstop := h.kind index (Nat.le_of_succ_le hstart) hstop
  last := h.last

end Sentence.LeadsIn

namespace Parse

variable {input : Input} {start stop : Nat} {state : ParseState}

def Inside (start stop : Nat) (state : ParseState) : Prop :=
  start ≤ state.position ∧ state.position ≤ stop

section Inside

variable (h : input.sentence.LeadsIn start stop)
include h

theorem eat_inside {kind : TokenKind} (hkind : kind.leadsIn = false)
    (hstate : Inside start stop state) : Declines (eat kind) input state :=
  eat_declines (TokenKind.ne_of_leadsIn (h.kind _ hstate.1 hstate.2) hkind)

theorem expect_inside {kind : TokenKind} (hkind : kind.leadsIn = false) (heof : kind ≠ .eof)
    (hstate : Inside start stop state) :
    Ends (expect kind) input state fun token? after =>
      token? = none ∧ Inside start stop after := by
  refine (expect_ends heof).imp ?_
  rintro token? after (⟨hyes, -, -⟩ | ⟨-, rfl, rfl⟩)
  · exact absurd hyes (TokenKind.ne_of_leadsIn (h.kind _ hstate.1 hstate.2) hkind)
  · exact ⟨rfl, hstate⟩

theorem advance_inside (hstate : Inside start stop state)
    (hthis : input.sentence.kindAt state.position ≠ .thisKw)
    (hliteral : (input.sentence.kindAt state.position).isLiteral = false) :
    Ends advance input state fun _ after => Inside start stop after := by
  have hkind := h.kind _ hstate.1 hstate.2
  unfold Ends
  rw [Ends.advance_eq (TokenKind.ne_of_leadsIn hkind (by decide))]
  exact ⟨Nat.le_succ_of_le hstate.1, h.next hstate.2 hthis hliteral⟩

section Nested

variable {nested : Parse TypeSyntax}
  (hnested : ∀ state, Inside start stop state →
    Ends nested input state fun _ after => Inside start stop after)
include hnested

theorem elementType_inside (named : Bool) (hstate : Inside start stop state) :
    Ends (elementType nested named) input state fun _ after => Inside start stop after := by
  have hkind := h.kind _ hstate.1 hstate.2
  have hqualifier : input.sentence.qualifierAt state.position = false := by
    have href : input.sentence.kindAt state.position ≠ .refKw :=
      TokenKind.ne_of_leadsIn hkind (by decide)
    have hreadonly : input.sentence.kindAt state.position ≠ .readonlyKw :=
      TokenKind.ne_of_leadsIn hkind (by decide)
    unfold Sentence.qualifierAt
    split <;> first | contradiction | rfl
  unfold elementType
  refine .position (.ask fun answer hanswer => ?_)
  rw [hqualifier] at hanswer
  subst hanswer
  refine .pureBind (.position ((eat_inside h (by decide) hstate).bind ?_))
  refine .skip (Inside start stop) (fun _ => hstate) (fun _ => hstate) fun after₁ hskipped => ?_
  refine (hnested after₁ hskipped).bind fun type after₂ htype => ?_
  have hname : Ends (if named then eat .identifier else pure none) input after₂ fun _ after =>
      Inside start stop after := by
    refine .ite (fun _ => ?_) fun _ => .pure htype
    refine Ends.imp (eat_inside h (by decide) htype) ?_
    rintro _ _ ⟨-, rfl⟩
    exact htype
  exact .join hname fun name? after₃ hname => .rangeFrom (.pure hname)

theorem elementTypes_inside (named : Bool) (hstate : Inside start stop state) :
    Ends (separated (elementType nested named)) input state fun _ after =>
      Inside start stop after := by
  refine separated_ends (fun _ => Inside start stop) (fun _ before hbefore => ?_) hstate
  refine (elementType_inside h hnested named hbefore).imp fun _ after hafter =>
    ⟨hafter, fun hcomma => ?_⟩
  exact absurd hcomma (TokenKind.ne_of_leadsIn (h.kind _ hafter.1 hafter.2) (by decide))

theorem tupleType_inside (hstate : Inside start stop state)
    (hkind : input.sentence.kindAt state.position = .lParen) :
    Ends (tupleType nested) input state fun _ after => Inside start stop after := by
  unfold tupleType
  have hnoted : Inside start stop
      { state with findings := .uses .tuples state.position :: state.findings } := hstate
  refine .position (.noteHere ?_)
  refine (advance_inside h hnoted (by simp [hkind]) (by simp [hkind, TokenKind.isLiteral])).bind
    fun opening after₁ hopening => ?_
  refine (elementTypes_inside h hnested true hopening).bind fun elements after₂ helements => ?_
  refine (expect_inside h (by decide) (by decide) helements).bind fun closing? after₃ hclosing => ?_
  refine .skip (Inside start stop) (fun _ => hclosing.2) (fun _ => hclosing.2)
    fun after₄ hnoted => ?_
  exact .rangeFrom (.pure hnoted)

omit hnested in
theorem typeSuffix?_inside (first : Nat) (type : TypeSyntax) (hstate : Inside start stop state) :
    Ends (typeSuffix? first type) input state fun _ after => Inside start stop after := by
  have hleads := h.kind _ hstate.1 hstate.2
  unfold typeSuffix?
  refine .kind fun kind hkind => ?_
  rw [hkind] at hleads
  split
  · exact absurd rfl (TokenKind.ne_of_leadsIn hleads (by decide))
  · refine (advance_inside h hstate (by simp [hkind]) (by simp [hkind, TokenKind.isLiteral])).bind
      fun star after hstar => ?_
    exact .rangeFrom (.pure hstar)
  · exact absurd rfl (TokenKind.ne_of_leadsIn hleads (by decide))
  · exact .pure hstate

omit hnested in
theorem typeSuffixes_inside (first : Nat) (type : TypeSyntax) (hstate : Inside start stop state) :
    Ends (grow (typeSuffix? first) type) input state fun _ after => Inside start stop after := by
  refine grow_ends (fun _ => Inside start stop) (fun type before hbefore => ?_) hstate
  refine (typeSuffix?_inside h first type hbefore).imp fun grown? after hafter => ?_
  cases grown? <;> exact hafter

theorem typeStep_inside (hstate : Inside start stop state) :
    Ends (typeStep nested) input state fun _ after => Inside start stop after := by
  have hleads := h.kind _ hstate.1 hstate.2
  unfold typeStep
  refine .position (.kind fun kind hkind => ?_)
  rw [hkind] at hleads
  split
  · exact absurd rfl (TokenKind.ne_of_leadsIn hleads (by decide))
  · exact (tupleType_inside h hnested hstate hkind).bind fun type after htype =>
      typeSuffixes_inside h _ type htype
  · rw [TokenKind.not_isPredefinedType_of_leadsIn hleads]
    exact hstate

end Nested

theorem type_inside (hstate : Inside start stop state) :
    Ends type input state fun _ after => Inside start stop after := by
  have hwithin : ∀ n state, Inside start stop state →
      Ends (typeWithin n) input state fun _ after => Inside start stop after := by
    intro n
    induction n with
    | zero => exact fun _ hstate => hstate
    | succ n ih => exact fun _ hstate => typeStep_inside h ih hstate
  exact .left (hwithin _ state hstate)

end Inside

theorem confirmedArguments_none (hkind : input.sentence.kindAt state.position = .lt)
    (h : input.sentence.LeadsIn (state.position + 1) stop) :
    Ends confirmedArguments input state fun args? _ => args? = none := by
  have hargs : Ends (typeArguments type) input state fun args _ => args.gt? = none := by
    unfold typeArguments
    refine .advance (by simp [hkind]) ?_
    refine (elementTypes_inside h (fun _ => type_inside h) false ⟨Nat.le_refl _, h.le⟩).bind
      fun args after₁ hargs => ?_
    exact (expect_inside h (by decide) (by decide) hargs).bind fun gt? after₂ hgt => .pure hgt.1
  unfold confirmedArguments
  refine hargs.bind fun args after hgt => .ask fun follows _ => ?_
  rw [hgt]
  exact .pure rfl

/-- A `<` in front of an operand is a comparison. -/
theorem typeArguments?_declines (h : input.sentence.kindAt state.position = .lt →
      ∃ stop, input.sentence.LeadsIn (state.position + 1) stop) :
    Declines typeArguments? input state := by
  unfold typeArguments?
  refine .checkIf (fun hlt => ?_) fun _ => .pure ⟨rfl, rfl⟩
  obtain ⟨stop, hleads⟩ := h hlt
  exact attempt_declines (confirmedArguments_none hlt hleads)

/-- A `(` in front of an operand opens no cast. -/
theorem castHead?_declines (hkind : input.sentence.kindAt state.position = .lParen)
    (h : input.sentence.LeadsIn (state.position + 1) stop) :
    Declines castHead? input state := by
  have hhead : Ends castHead input state fun type? _ => type? = none := by
    unfold castHead
    refine .advance (by simp [hkind]) ?_
    refine (type_inside h ⟨Nat.le_refl _, h.le⟩).bind fun type after₁ htype => ?_
    exact .ite (fun _ => .pure rfl) fun _ => (eat_inside h (by decide) htype).bind (.pure rfl)
  have hanswer : Ends mayBeCast input state fun _ after => after = state := rfl
  refine hanswer.bind ?_
  rintro answer _ rfl
  exact .ite (fun _ => attempt_declines hhead) fun _ => .pure ⟨rfl, rfl⟩

end Parse
end TolerantSyntax
