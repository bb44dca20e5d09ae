import TolerantSyntax.Token.List
import TolerantSyntax.Token.Set

/-!
# Cursors

A place in a token list that ends with the end-of-file token. A cursor looks ahead
without moving and steps over one token at a time, but never over an end of file.
-/

namespace TolerantSyntax

structure Cursor where
  tokens : TokenList
  position : Nat
deriving DecidableEq, Repr

namespace Cursor

def start (tokens : TokenList) : Cursor := ⟨tokens, 0⟩

/-- The token `n` places ahead; beyond the list, its last token. -/
def peek (cursor : Cursor) (n : Nat) : Token :=
  (cursor.tokens.get? (cursor.position + n)).getD
    (cursor.tokens.last?.getD (.bare .eof ⟨0, 0⟩))

def current (cursor : Cursor) : Token := cursor.peek 0

def kind (cursor : Cursor) : TokenKind := cursor.current.kind

def check (cursor : Cursor) (kind : TokenKind) : Bool := cursor.kind == kind

def isAtEnd (cursor : Cursor) : Bool := cursor.check .eof

def isAdjacent (cursor : Cursor) (n : Nat) : Bool := (cursor.peek n).flags.adjacent

def previousSpan (cursor : Cursor) : Span :=
  if cursor.position = 0 then ⟨0, 0⟩
  else ((cursor.tokens.get? (cursor.position - 1)).map (·.span)).getD ⟨0, 0⟩

/-- Step over the current token, unless it is the end of file. -/
def advance (cursor : Cursor) : Cursor :=
  if cursor.isAtEnd then cursor else { cursor with position := cursor.position + 1 }

def moveTo (cursor : Cursor) (position : Nat) : Cursor :=
  { cursor with position := min position (cursor.tokens.size - 1) }

def synchronizeWithin (set : TokenSet) : Nat → Cursor → Cursor
  | 0, cursor => cursor
  | fuel + 1, cursor =>
      if cursor.isAtEnd || set.contains cursor.kind then cursor
      else synchronizeWithin set fuel cursor.advance

/-- Step to the next token of the set, or to the end of file. -/
def synchronize (cursor : Cursor) (set : TokenSet) : Cursor :=
  synchronizeWithin set (cursor.tokens.size - cursor.position) cursor

def reaches (cursor : Cursor) (set : TokenSet) : Bool := !(cursor.synchronize set).isAtEnd

end Cursor
end TolerantSyntax
