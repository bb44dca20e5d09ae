import TolerantSyntax.Text.Span
import TolerantSyntax.Token.Kind

/-!
# Tokens

A token owns three byte spans: the trivia before it, its own text, and the trivia
behind it. Its flags record what the layout around it looks like.
-/

namespace TolerantSyntax

/-- Layout facts about a token.

* `leadingTrivia`, `trailingTrivia`: there is trivia before or behind it;
* `newlineBefore`: a line break separates it from the token before;
* `adjacent`: nothing separates it from the token before;
* `lineStart`: it is the first token of its line. -/
structure TokenFlags where
  leadingTrivia : Bool
  newlineBefore : Bool
  trailingTrivia : Bool
  adjacent : Bool
  lineStart : Bool
deriving DecidableEq, Repr, Inhabited

namespace TokenFlags

def empty : TokenFlags := ⟨false, false, false, false, false⟩

def toBits (flags : TokenFlags) : Nat :=
  flags.leadingTrivia.toNat + 2 * flags.newlineBefore.toNat + 4 * flags.trailingTrivia.toNat
    + 8 * flags.adjacent.toNat + 16 * flags.lineStart.toNat

def ofBits (bits : Nat) : TokenFlags :=
  ⟨bits.testBit 0, bits.testBit 1, bits.testBit 2, bits.testBit 3, bits.testBit 4⟩

theorem ofBits_toBits (flags : TokenFlags) : ofBits flags.toBits = flags := by
  rcases flags with ⟨a, b, c, d, e⟩
  cases a <;> cases b <;> cases c <;> cases d <;> cases e <;> rfl

end TokenFlags

structure Token where
  kind : TokenKind
  contextual : ContextualKeyword
  flags : TokenFlags
  span : Span
  leading : Span
  trailing : Span
deriving DecidableEq, Repr, Inhabited

namespace Token

def bare (kind : TokenKind) (span : Span) : Token :=
  ⟨kind, .none, .empty, span, .point span.start, .point span.stop⟩

def fullSpan (token : Token) : Span := ⟨token.leading.start, token.trailing.stop⟩

/-- Whether the token is an identifier that may act as the given keyword. -/
def isContextual (token : Token) (keyword : ContextualKeyword) : Bool :=
  token.kind == .identifier && token.contextual == keyword

def render (token : Token) : String := s!"{token.kind.name} @ {token.span.render}"

end Token
end TolerantSyntax
