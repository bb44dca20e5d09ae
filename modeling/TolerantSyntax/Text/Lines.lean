import TolerantSyntax.Text.Span

/-!
# Lines and columns

Positions are counted from one: lines by line feeds, columns by characters. A
`LineTable` holds the byte offset at which every line starts, so that a line is
found by bisection.
-/

namespace TolerantSyntax

structure Position where
  line : Nat
  column : Nat
deriving DecidableEq, Repr

/-- The byte offsets of the line starts, in increasing order; the first is 0. -/
structure LineTable where
  starts : Array Nat
deriving Repr

namespace LineTable

def startsAfter (offset : Nat) : List Char → List Nat
  | [] => []
  | c :: chars =>
      let next := offset + c.utf8Size
      if c = '\n' then next :: startsAfter next chars else startsAfter next chars

def ofText (text : String) : LineTable := ⟨(0 :: startsAfter 0 text.toList).toArray⟩

def lineCount (table : LineTable) : Nat := table.starts.size

/-- The number of entries of a sorted array that are at most `offset`, given that
those below `low` are and those from `high` on are not. -/
def countUpTo (starts : Array Nat) (offset low high : Nat) : Nat :=
  if low < high then
    let middle := (low + high) / 2
    if starts.getD middle 0 ≤ offset then countUpTo starts offset (middle + 1) high
    else countUpTo starts offset low middle
  else low
termination_by high - low

def lineAt (table : LineTable) (offset : Nat) : Nat :=
  max (countUpTo table.starts offset 0 table.starts.size) 1

def lineStart? (table : LineTable) (line : Nat) : Option Nat :=
  if line = 0 then none else table.starts[line - 1]?

/-- The position of a byte offset; offsets beyond the text stand at its end. -/
def position (table : LineTable) (text : String) (offset : Nat) : Position :=
  let line := table.lineAt offset
  let start := (table.lineStart? line).getD 0
  let before := Span.slice ⟨start, min offset text.utf8ByteSize⟩ text
  ⟨line, before.length + 1⟩

end LineTable

def positionIn (text : String) (offset : Nat) : Position :=
  (LineTable.ofText text).position text offset

end TolerantSyntax
