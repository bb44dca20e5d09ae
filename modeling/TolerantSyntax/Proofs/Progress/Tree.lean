import TolerantSyntax.Proofs.Progress.Start
import TolerantSyntax.Proofs.Recovery.Expr

/-!
# Reading goes forward

Reading ends, since a part of a sort is read inside another one of its sort only behind the place
where that starts, and a loop goes on only behind a symbol.  Statements and accessors always take a
symbol where they are asked for, so that a guard against those that take none is never needed.
-/

namespace TolerantSyntax
namespace Parse

variable {α : Type} {parse : Parse α} {input : Input} {state : ParseState}

/-- A symbol is taken when nothing else was. -/
def guarded (parse : Parse α) : Parse α := do
  let start ← position
  let value ← parse
  if (← position) == start then
    let _ ← advance
    return value
  else return value

theorem guarded_eq (h : Ends parse input state fun _ after => state.position < after.position) :
    guarded parse input state = parse input state := by
  have hparse : Ends parse input state fun value after =>
      (value, after) = parse input state ∧ state.position < after.position := ⟨rfl, h⟩
  have hends : Ends (guarded parse) input state fun value after =>
      (value, after) = parse input state := by
    unfold guarded
    refine .position (hparse.bind ?_)
    rintro value after ⟨heq, hmoved⟩
    refine .position (.ite (fun hsame => ?_) fun _ => .pure heq)
    exact absurd (beq_iff_eq.mp hsame) (Nat.ne_of_gt hmoved)
  exact hends

/-- The guards of a list make no difference. -/
theorem Moves.unguarded (h : Moves parse input) (state : ParseState) :
    many (unlessClosed (guarded parse)) input state = many (unlessClosed parse) input state := by
  have hpaired : PairedFrom 0 (unlessClosed (guarded parse)) (unlessClosed parse) input := by
    refine fun before _ => .whenever fun hopen => ?_
    obtain ⟨hbrace, heof⟩ : input.sentence.kindAt before.position ≠ .rBrace ∧
        input.sentence.kindAt before.position ≠ .eof := by simpa using hopen
    have hmoved := h before heof hbrace
    have hsame := guarded_eq hmoved
    exact ⟨hsame, Nat.le_of_lt (hsame.symm ▸ hmoved)⟩
  exact (hpaired.many state (Nat.zero_le _)).same

/-- Reading ends and goes forward.  A production calls itself, or one that comes behind it, only by
way of what it is given, so every way back to a production passes through one of the four
recursions. -/
structure Progress (input : Input) : Prop where
  types : Recursion.types.Terminates input
  exprs : Recursion.exprs.Terminates input
  stmts : Recursion.stmts.Terminates input
  members : Recursion.members.Terminates input
  /-- Whatever a production reads of its own sort starts behind the place where it starts. -/
  recursive : ∀ {κ β α : Type} {production : (κ → Parse β) → Parse α}, Recursive production →
    ∀ state key place, Enters production input state key place → state.position < place
  led : ∀ {κ β α : Type} {production : (κ → Parse β) → Parse α}, Led production →
    ∀ state key place, input.sentence.kindAt state.position ≠ .eof →
      Enters production input state key place → state.position < place
  /-- An element starts behind the symbol that opens its list. -/
  elements : ∀ {κ β α : Type} {production : (κ → Parse β) → Parse α},
    RecursiveElement production →
      ∀ state key place, Enters production input state key place → state.position ≤ place
  /-- Another round starts behind a symbol of the one before. -/
  loops : ∀ {κ β : Type} {loop : Recursion κ β}, Loop loop → loop.Terminates input
  stmt : ∀ state, input.sentence.kindAt state.position ≠ .eof →
    Ends stmt input state fun _ after => state.position < after.position
  accessor : Moves accessor? input
  expr : ∀ state, TokenSet.expressionStart.contains (input.sentence.kindAt state.position) = true →
    Ends expr input state fun _ after => state.position < after.position
  member : ∀ context state,
    context.memberStart.contains (input.sentence.kindAt state.position) = true →
      Ends (member Parse.members context) input state fun _ after =>
        state.position < after.position ↔ ¬input.sentence.bareConversionAt state.position
  /-- With a guard behind each statement of a block, or behind each accessor, nothing is read
  differently. -/
  guards : ∀ state,
    many (unlessClosed (guarded Parse.stmt)) input state =
        many (unlessClosed Parse.stmt) input state ∧
      many (unlessClosed (guarded accessor?)) input state =
        many (unlessClosed accessor?) input state

end Parse

theorem SyntaxTree.ofTokens_progress (tokens : TokenList) :
    Parse.Progress (.ofSentence (.ofTokens tokens)) where
  types := Parse.Recursion.types_rising.terminates
  exprs := Parse.Recursion.exprs_rising.terminates
  stmts := Parse.Recursion.stmts_rising.terminates
  members := Parse.Recursion.members_rising.terminates
  recursive h _ _ _ henters := h.rises henters
  led h _ _ _ hkind henters := h.rises henters hkind
  elements h _ _ _ henters := h.rises henters
  loops h := h.terminates
  stmt _ hkind := Parse.stmt_moves hkind
  accessor := Parse.accessor?_moves
  expr _ hstart := Parse.expr_gathers.imp fun _ _ h => h.1 hstart
  member context _ hstart := Parse.member_moves_iff context hstart
  guards state := by
    have hstmt : Parse.Moves Parse.stmt (.ofSentence (.ofTokens tokens)) :=
      fun _ heof _ => Parse.stmt_moves heof
    exact ⟨hstmt.unguarded state, Parse.accessor?_moves.unguarded state⟩

end TolerantSyntax
