import TolerantSyntax.Token.List

/-!
# Sentences

What the grammar sees of a token list: the tokens before the first end of file, each
reduced to its kind, its contextual keyword, and whether it touches the `>` in front of
it. So nothing else about the layout, and nothing behind the end of file, can have an
influence on a tree.
-/

namespace TolerantSyntax

structure Symbol where
  kind : TokenKind
  contextual : ContextualKeyword
  /-- The symbol is a `>` directly behind another one: the two are a right shift. -/
  joined : Bool
deriving DecidableEq, Repr, Inhabited

structure Sentence where
  symbols : Array Symbol
deriving DecidableEq, Repr, Inhabited

namespace Sentence

/-- The symbols of the tokens before the first end of file, given whether the token in
front of them is a `>`. -/
def symbolsOf (behindGt : Bool) : List Token → List Symbol
  | [] => []
  | token :: rest =>
      if token.kind = .eof then []
      else
        let isGt := token.kind == .gt
        ⟨token.kind, token.contextual, isGt && behindGt && token.flags.adjacent⟩
          :: symbolsOf isGt rest

def ofTokens (tokens : TokenList) : Sentence := ⟨(symbolsOf false tokens.tokens.toList).toArray⟩

def size (sentence : Sentence) : Nat := sentence.symbols.size

def left (sentence : Sentence) (index : Nat) : Nat := sentence.size - index

/-- The kind at an index; from the end on, the end of file. -/
def kindAt (sentence : Sentence) (index : Nat) : TokenKind :=
  match sentence.symbols[index]? with
  | some symbol => symbol.kind
  | none => .eof

def contextualAt (sentence : Sentence) (index : Nat) : ContextualKeyword :=
  match sentence.symbols[index]? with
  | some symbol => symbol.contextual
  | none => .none

def joinedAt (sentence : Sentence) (index : Nat) : Bool :=
  match sentence.symbols[index]? with
  | some symbol => symbol.joined
  | none => false

def shiftAt (sentence : Sentence) (index : Nat) : Bool :=
  sentence.kindAt index == .gt && sentence.kindAt (index + 1) == .gt
    && sentence.joinedAt (index + 1)

def qualifierAt (sentence : Sentence) (index : Nat) : Bool :=
  match sentence.kindAt index with
  | .refKw => true
  | .readonlyKw => sentence.kindAt (index + 1) == .refKw
  | _ => false

def rankAt (sentence : Sentence) (index : Nat) : Bool :=
  sentence.kindAt index == .lBracket
    && (sentence.kindAt (index + 1) == .rBracket || sentence.kindAt (index + 1) == .comma)

def accessorKeywordAt (sentence : Sentence) (index : Nat) : Bool :=
  sentence.kindAt index == .identifier
    && (sentence.contextualAt index == .getWord || sentence.contextualAt index == .setWord)

/-- The first index from `index` on whose symbol is in the set or is the end of file, within
`n` symbols. -/
def seekWithin (sentence : Sentence) (set : TokenKind → Bool) : Nat → Nat → Nat
  | 0, index => index
  | n + 1, index =>
      if sentence.kindAt index == .eof || set (sentence.kindAt index) then index
      else sentence.seekWithin set n (index + 1)

def seek (sentence : Sentence) (set : TokenKind → Bool) (index : Nat) : Nat :=
  sentence.seekWithin set (sentence.left index) index

/-- Where the next member may start, within `n` symbols and at a depth of open braces:
at a symbol of the set or at a `}` that nothing skipped opens. -/
def memberBoundaryWithin (sentence : Sentence) (starts : TokenKind → Bool) :
    Nat → Nat → Nat → Nat
  | 0, _, index => index
  | n + 1, depth, index =>
      let kind := sentence.kindAt index
      if kind == .eof || starts kind then index
      else
        match kind, depth with
        | .lBrace, _ => sentence.memberBoundaryWithin starts n (depth + 1) (index + 1)
        | .rBrace, 0 => index
        | .rBrace, depth + 1 => sentence.memberBoundaryWithin starts n depth (index + 1)
        | _, _ => sentence.memberBoundaryWithin starts n depth (index + 1)

def memberBoundary (sentence : Sentence) (starts : TokenKind → Bool) (index : Nat) : Nat :=
  sentence.memberBoundaryWithin starts (sentence.left index) 0 index

/-- Where the next accessor may start, within `n` symbols and at a depth of open braces:
behind a `;`, or at a `}` or an accessor keyword, all outside the braces skipped. -/
def accessorBoundaryWithin (sentence : Sentence) : Nat → Nat → Nat → Nat
  | 0, _, index => index
  | n + 1, depth, index =>
      match sentence.kindAt index, depth with
      | .eof, _ => index
      | .lBrace, _ => sentence.accessorBoundaryWithin n (depth + 1) (index + 1)
      | .rBrace, 0 => index
      | .rBrace, depth + 1 => sentence.accessorBoundaryWithin n depth (index + 1)
      | .semicolon, 0 => index + 1
      | _, 0 =>
          if sentence.accessorKeywordAt index then index
          else sentence.accessorBoundaryWithin n 0 (index + 1)
      | _, depth => sentence.accessorBoundaryWithin n depth (index + 1)

def accessorBoundary (sentence : Sentence) (index : Nat) : Nat :=
  sentence.accessorBoundaryWithin (sentence.left index) 0 index

end Sentence
end TolerantSyntax
