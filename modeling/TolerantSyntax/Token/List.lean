import TolerantSyntax.Token.Basic

/-!
# Token lists

The tokens of one text, and ranges of their indices.
-/

namespace TolerantSyntax

/-- The half-open range of token indices from `start` up to `stop`. A node that
stands for missing input has an empty range at the place where it was expected. -/
structure TokenRange where
  start : Nat
  stop : Nat
deriving DecidableEq, Repr, Inhabited

namespace TokenRange

def emptyAt (index : Nat) : TokenRange := ⟨index, index⟩

def single (index : Nat) : TokenRange := ⟨index, index + 1⟩

def isEmpty (range : TokenRange) : Bool := range.start == range.stop

def length (range : TokenRange) : Nat := range.stop - range.start

def contains (range : TokenRange) (index : Nat) : Bool :=
  range.start ≤ index && index < range.stop

def indices (range : TokenRange) : List Nat := List.range' range.start range.length

def renderIndex (index : Nat) : String := s!"#{index}"

def render (range : TokenRange) : String :=
  s!"{renderIndex range.start}..{renderIndex range.stop}"

end TokenRange

structure TokenList where
  tokens : Array Token
deriving DecidableEq, Repr, Inhabited

namespace TokenList

def size (list : TokenList) : Nat := list.tokens.size

def isEmpty (list : TokenList) : Bool := list.tokens.isEmpty

def push (list : TokenList) (token : Token) : TokenList := ⟨list.tokens.push token⟩

def get? (list : TokenList) (index : Nat) : Option Token := list.tokens[index]?

def last? (list : TokenList) : Option Token := list.tokens.back?

def lastIndex? (list : TokenList) : Option Nat :=
  if list.isEmpty then none else some (list.size - 1)

def endsWithEof (list : TokenList) : Bool := list.last?.any (·.kind == .eof)

def holds (list : TokenList) (range : TokenRange) : Bool :=
  range.start ≤ range.stop && range.stop ≤ list.size

/-- The tokens of a range; none when the range does not lie in the list. -/
def slice (list : TokenList) (range : TokenRange) : List Token :=
  if list.holds range then (list.tokens.extract range.start range.stop).toList else []

def ends? (list : TokenList) (range : TokenRange) : Option (Token × Token) :=
  if list.holds range && !range.isEmpty then
    match list.get? range.start, list.get? (range.stop - 1) with
    | some first, some last => some (first, last)
    | _, _ => none
  else none

def fullSpan? (list : TokenList) (range : TokenRange) : Option Span :=
  (list.ends? range).map fun (first, last) => first.fullSpan.merge last.fullSpan

/-- The text from the first to the last token of a range, without the outer trivia. -/
def text (list : TokenList) (source : String) (range : TokenRange) : String :=
  match list.ends? range with
  | some (first, last) => Span.slice ⟨first.span.start, last.span.stop⟩ source
  | none => ""

def render (list : TokenList) : String := s!"TokenList({list.size} tokens)"

end TokenList
end TolerantSyntax
