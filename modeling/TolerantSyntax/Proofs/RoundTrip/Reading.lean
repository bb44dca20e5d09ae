import TolerantSyntax.Proofs.RoundTrip.Sequence
import TolerantSyntax.Proofs.RoundTrip.Shown

/-!
# Terms that are read back

Suffixes and operators between take the expression in front of them into a longer one, step by
step.  So the front of a term is read first, and what has been read leads on to the next step:
`LeadsTo` says that the whole loop ends as it does from behind the term on; its rules are those
of `Leads`.
-/

namespace TolerantSyntax

namespace TokenKind

def startsSuffix : TokenKind → Bool
  | dot | lParen | lBracket | plusPlus | minusMinus => true
  | _ => false

def continuesTerm (kind : TokenKind) : Bool :=
  kind.startsSuffix || kind == isKw || kind == asKw || (BinaryOp.ofKind? kind).isSome

/-- What an expression in parentheses, in a list or in a statement ends at. -/
def closesTerm : TokenKind → Bool
  | rParen | rBracket | comma | colon | semicolon => true
  | _ => false

theorem closesTerm_ends {kind : TokenKind} (h : kind.closesTerm = true) :
    kind.continuesTerm = false ∧ kind ≠ question ∧ AssignOp.ofKind? kind = none := by
  unfold closesTerm at h
  split at h <;> first | decide | cases h

end TokenKind

theorem AssignOp.symbol_ends (op : AssignOp) :
    op.symbol.continuesTerm = false ∧ op.symbol ≠ .question := by
  cases op <;> decide

/-- No suffix goes on here, and a `<` is a comparison. -/
structure Sentence.EndsSuffix (sentence : Sentence) (index : Nat) : Prop where
  kind : (sentence.kindAt index).startsSuffix = false
  lt : sentence.kindAt index = .lt → ∃ stop, sentence.LeadsIn (index + 1) stop

/-- What must follow so that nothing goes on at a level. -/
def ExprLevel.Stops (sentence : Sentence) (index : Nat) : ExprLevel → Prop
  | full | initializer => (sentence.kindAt index).closesTerm = true
  | binary least =>
      sentence.EndsSuffix index ∧
        ∀ op, sentence.infixAt? index = some op → op.precedence < least
  | unary => sentence.EndsSuffix index

theorem ExprLevel.stops_binary {sentence : Sentence} {index : Nat}
    (h : (sentence.kindAt index).continuesTerm = false) (least : Nat) :
    (binary least).Stops sentence index := by
  simp only [TokenKind.continuesTerm, Bool.or_eq_false_iff, beq_eq_false_iff_ne, ne_eq,
    Option.isSome_eq_false_iff, Option.isNone_iff_eq_none] at h
  obtain ⟨⟨⟨hsuffix, his⟩, has⟩, hbinary⟩ := h
  have hother : ∀ kind, (BinaryOp.ofKind? kind).isSome = true → sentence.kindAt index ≠ kind := by
    rintro kind hkind rfl
    rw [hbinary] at hkind
    cases hkind
  refine ⟨⟨hsuffix, fun hlt => absurd hlt (hother .lt rfl)⟩, fun op hop => ?_⟩
  have hshift : sentence.shiftAt index = false := by
    simp [Sentence.shiftAt, hother .gt rfl]
  rw [Sentence.infixAt?, hshift] at hop
  simp_all

def ExprLevel.Admits (term : Term) : ExprLevel → Prop
  | full => True
  | binary least => 1 ≤ term.level ∧ least ≤ term.level
  | unary => 12 ≤ term.level
  | initializer => False

namespace Parse

variable {input : Input} {word : Nat → Spelling} {state : ParseState}

structure ReadTo {α : Type} (reads : α → List Finding → Prop) (stop : Nat) (value : α)
    (after : ParseState) : Prop where
  reads : reads value after.findings
  position : after.position = stop

structure ReadBack (word : Nat → Spelling) (term : Term) (stop : Nat) (before : ParseState)
    (expr : Expr) (after : ParseState) : Prop where
  term : expr.term? word = some term
  position : after.position = stop
  findings : after.findings = before.findings

theorem complete_back {start stop : Nat} {make : ExprInfo → Expr} {term : Term}
    {before : ParseState} (hmake : ∀ info, (make info).term? word = some term)
    (hposition : state.position = stop) (hfindings : state.findings = before.findings) :
    Ends (complete start make) input state (ReadBack word term stop before) :=
  ⟨hmake _, hposition, hfindings⟩

def Grown (word : Nat → Spelling) (term : Term) (stop : Nat) (before : ParseState)
    (grown? : Option Expr) (after : ParseState) : Prop :=
  ∃ grown, grown? = some grown ∧ ReadBack word term stop before grown after

theorem grown_back {start stop : Nat} {make : ExprInfo → Expr} {term : Term}
    {before : ParseState} (hmake : ∀ info, (make info).term? word = some term)
    (hposition : state.position = stop) (hfindings : state.findings = before.findings) :
    Ends (complete start make >>= fun longer => pure (some longer)) input state
      (Grown word term stop before) :=
  (complete_back hmake hposition hfindings).bind fun expr _ hexpr => .pure ⟨expr, rfl, hexpr⟩

/-- `parse` reads the term and goes on with `step`. -/
def LeadsTo (parse : Parse Expr) (step : Expr → Parse (Option Expr)) (input : Input)
    (word : Nat → Spelling) (term : Term) (state : ParseState) : Prop :=
  ∀ post : Expr → ParseState → Prop,
    (∀ expr after n, ReadBack word term (state.position + term.signs.length) state expr after →
      input.sentence.left after.position ≤ n →
      Ends (growWithin step n expr) input after post) →
    Ends parse input state post

namespace LeadsTo

variable {parse : Parse Expr} {step : Expr → Parse (Option Expr)} {term inner : Term}

theorem of_first {first : Parse Expr}
    (hfirst : Ends first input state
      (ReadBack word term (state.position + term.signs.length) state)) :
    LeadsTo (first >>= Parse.grow step) step input word term state := Leads.of_first hfirst

theorem grow (h : LeadsTo parse step input word inner state)
    (hinside : input.sentence.kindAt (state.position + inner.signs.length) ≠ .eof)
    (hlonger : inner.signs.length < term.signs.length)
    (hstep : ∀ expr after,
      ReadBack word inner (state.position + inner.signs.length) state expr after →
      Ends (step expr) input after
        (Grown word term (state.position + term.signs.length) state)) :
    LeadsTo parse step input word term state := by
  refine Leads.grow h (fun expr after hexpr => ?_) fun expr after hexpr => ?_
  · rwa [hexpr.position]
  · refine (hstep expr after hexpr).imp ?_
    rintro _ last ⟨grown, rfl, hgrown⟩
    refine ⟨grown, rfl, hgrown, ?_⟩
    rw [hexpr.position, hgrown.position]
    omega

theorem ends (h : LeadsTo parse step input word term state)
    (hstop : ∀ expr after,
      ReadBack word term (state.position + term.signs.length) state expr after →
      Declines (step expr) input after) :
    Ends parse input state (ReadBack word term (state.position + term.signs.length) state) :=
  Leads.ends h hstop

end LeadsTo
end Parse
end TolerantSyntax
