/-!
# Byte spans of one source text

A span is a half-open range of byte offsets into the UTF-8 encoding of a text.
Offsets are natural numbers; `Span.saturating` gives the span that a store with
32-bit offsets would hold.
-/

namespace TolerantSyntax

/-- The half-open range of bytes from `start` up to `stop`. -/
structure Span where
  start : Nat
  stop : Nat
deriving DecidableEq, Repr, Inhabited

namespace Span

def point (offset : Nat) : Span := ⟨offset, offset⟩

def maxOffset : Nat := 0xFFFFFFFF

/-- Both ends clamped to 32 bits. -/
def saturating (start stop : Nat) : Span := ⟨min start maxOffset, min stop maxOffset⟩

def length (span : Span) : Nat := span.stop - span.start

def isEmpty (span : Span) : Bool := span.start == span.stop

def contains (span : Span) (offset : Nat) : Bool :=
  span.start ≤ offset && offset < span.stop

def merge (left right : Span) : Span :=
  ⟨min left.start right.start, max left.stop right.stop⟩

def render (span : Span) : String := s!"{span.start}..{span.stop}"

/-- The text under a span: empty when the span is reversed, leaves the text or
splits a character. -/
def slice (span : Span) (text : String) : String :=
  let start : String.Pos.Raw := ⟨span.start⟩
  let stop : String.Pos.Raw := ⟨span.stop⟩
  if span.start ≤ span.stop && start.isValid text && stop.isValid text then
    String.Pos.Raw.extract text start stop
  else ""

end Span
end TolerantSyntax
