import TolerantSyntax.Grammar.Finding
import TolerantSyntax.Grammar.TypeEnd
import TolerantSyntax.Token.Set
import TolerantSyntax.Tree.Expr

/-!
# Reading a sentence

A `Parse` reads symbols from a place in a sentence on. It never fails: what is missing
is noted as a finding and left out of the tree. Reading never goes over the end of the
sentence, so the symbols left bound every loop and every nesting; where none are left, a
loop ends and a nested construct is what its grammar says about the end of file.
-/

namespace TolerantSyntax

/-- A sentence and where its tuple types end. -/
structure Input where
  sentence : Sentence
  tupleEnd : Nat → Nat

namespace Input

def ofSentence (sentence : Sentence) : Input :=
  let ends := sentence.tupleEnds
  ⟨sentence, fun opening => ends.getD opening 0⟩

end Input

/-- What reading changes: the place, the findings (the latest first) and the expressions
that are complete. -/
structure ParseState where
  position : Nat
  findings : List Finding
  exprs : ExprTable

def ParseState.start : ParseState := ⟨0, [], .empty⟩

abbrev Parse := ReaderT Input (StateM ParseState)

namespace Parse

@[inline] def ask (question : Sentence → Nat → α) : Parse α := fun input state =>
  (question input.sentence state.position, state)

def position : Parse Nat := ask fun _ index => index

def kind : Parse TokenKind := ask fun sentence index => sentence.kindAt index

def peek (n : Nat) : Parse TokenKind := ask fun sentence index => sentence.kindAt (index + n)

def check (kind : TokenKind) : Parse Bool :=
  ask fun sentence index => sentence.kindAt index == kind

def checkAny (set : TokenSet) : Parse Bool :=
  ask fun sentence index => set.contains (sentence.kindAt index)

def atEnd : Parse Bool := check .eof

def left : Parse Nat := ask fun sentence index => sentence.left index

def rangeFrom (start : Nat) : Parse TokenRange := ask fun _ index => ⟨start, max start index⟩

/-- Takes the current symbol, unless the sentence is at its end, and gives its index. -/
def advance : Parse Nat := fun input state =>
  let index := state.position
  if input.sentence.kindAt index = .eof then (index, state)
  else (index, { state with position := index + 1 })

/-- Moves on to a place that the sentence determines. -/
def moveTo (place : Sentence → Nat → Nat) : Parse Unit := fun input state =>
  ((), { state with position := place input.sentence state.position })

def synchronize (set : TokenSet) : Parse Unit :=
  moveTo fun sentence index => sentence.seek set.contains index

def note (finding : Finding) : Parse Unit := fun _ state =>
  ((), { state with findings := finding :: state.findings })

def noteHere (finding : Nat → Finding) : Parse Unit := fun _ state =>
  ((), { state with findings := finding state.position :: state.findings })

def eat (kind : TokenKind) : Parse (Option Nat) := do
  if ← check kind then return some (← advance) else return none

/-- Takes a symbol of the kind; if it is not there, this is noted and reading goes on as if
it were. -/
def expect (kind : TokenKind) : Parse (Option Nat) := do
  match ← eat kind with
  | some index => return some index
  | none => do
      noteHere (.absent kind)
      return none

def complete (start : Nat) (make : ExprInfo → Expr) : Parse Expr := fun _ state =>
  let (expr, exprs) := state.exprs.add ⟨start, max start state.position⟩ make
  (expr, { state with exprs })

/-! ## Trying and repeating -/

def lookAhead (parse : Parse α) : Parse α := fun input state => ((parse input state).1, state)

/-- Goes back when the attempt comes to nothing. -/
def attempt (parse : Parse (Option α)) : Parse (Option α) := fun input state =>
  match parse input state with
  | (some value, after) => (some value, after)
  | (none, _) => (none, state)

def manyWithin (item : Parse (Option α)) : Nat → Parse (List α)
  | 0 => return []
  | n + 1 => do
      match ← item with
      | none => return []
      | some value => return value :: (← manyWithin item n)

def many (item : Parse (Option α)) : Parse (List α) := do manyWithin item (← left)

def growWithin (step : α → Parse (Option α)) : Nat → α → Parse α
  | 0, value => return value
  | n + 1, value => do
      match ← step value with
      | none => return value
      | some grown => growWithin step n grown

def grow (step : α → Parse (Option α)) (value : α) : Parse α := do
  growWithin step (← left) value

def separatedWithin (item : Parse α) : Nat → Parse (List α)
  | 0 => return [← item]
  | n + 1 => do
      let value ← item
      match ← eat .comma with
      | none => return [value]
      | some _ => return value :: (← separatedWithin item n)

def separated (item : Parse α) : Parse (List α) := do separatedWithin item (← left)

def listedWithin (item : Parse α) (closing : TokenKind) : Nat → Parse (List α)
  | 0 => return []
  | n + 1 => do
      if (← check closing) || (← atEnd) then return []
      else
        let value ← item
        match ← eat .comma with
        | none => return [value]
        | some _ => return value :: (← listedWithin item closing n)

def listed (item : Parse α) (closing : TokenKind) : Parse (List α) := do
  listedWithin item closing (← left)

def whenever (condition : Parse Bool) (parse : Parse α) : Parse (Option α) := do
  if ← condition then return some (← parse) else return none

def unlessClosed (parse : Parse α) : Parse (Option α) :=
  whenever (ask fun sentence index =>
    sentence.kindAt index != .rBrace && sentence.kindAt index != .eof) parse

/-- Items in braces; none are read when the `{` is absent, and no `}` is required then. -/
def braced (items : Parse (List α)) : Parse (Option Nat × List α × Option Nat) := do
  match ← expect .lBrace with
  | none => return (none, [], none)
  | some opening => do
      let items ← items
      return (some opening, items, ← expect .rBrace)

end Parse
end TolerantSyntax
