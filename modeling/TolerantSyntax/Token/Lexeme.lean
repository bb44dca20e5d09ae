import TolerantSyntax.Diagnostic.Basic
import TolerantSyntax.Text.CharClass
import TolerantSyntax.Token.Kind

/-!
# Lexemes

The longest pieces that the lexical rules cut a text into. At every place the rule
with the longest match wins, and a keyword wins over an identifier of the same text,
unless the next byte is one that a longer identifier could go on with. Every character
belongs to exactly one lexeme: one that fits no rule stands alone.
-/

namespace TolerantSyntax

/-- The rule that a lexeme comes from. -/
inductive LexemeRule where
  | whitespace
  | newline
  | lineComment
  | blockComment (closed : Bool)
  | byteOrderMark
  | token (kind : TokenKind)
  | unclosed (kind : TokenKind)
  | unclosedVerbatim
  | unmatched
deriving DecidableEq, Repr, Inhabited

namespace LexemeRule

/-! ## Rules -/

def isDigitOrUnderscore (c : Char) : Bool := c.isDigit || c == '_'

def isHexOrUnderscore (c : Char) : Bool :=
  isDigitOrUnderscore c || ('a' ≤ c && c ≤ 'f') || ('A' ≤ c && c ≤ 'F')

def runLength (p : Char → Bool) (cs : List Char) : Nat := (cs.takeWhile p).length

def integerSuffix : List Char → Nat
  | c :: rest =>
      if c = 'u' ∨ c = 'U' then
        match rest with
        | d :: _ => if d = 'l' ∨ d = 'L' then 2 else 1
        | [] => 1
      else if c = 'l' ∨ c = 'L' then
        match rest with
        | d :: _ => if d = 'u' ∨ d = 'U' then 2 else 1
        | [] => 1
      else 0
  | [] => 0

def isRealSuffix (c : Char) : Bool :=
  c == 'f' || c == 'F' || c == 'd' || c == 'D' || c == 'm' || c == 'M'

def realSuffix : List Char → Nat
  | c :: _ => if isRealSuffix c then 1 else 0
  | [] => 0

def exponent : List Char → Nat
  | c :: rest =>
      if c = 'e' ∨ c = 'E' then
        let sign := match rest with
          | d :: _ => if d = '+' ∨ d = '-' then 1 else 0
          | [] => 0
        let digits := runLength Char.isDigit (rest.drop sign)
        if digits = 0 then 0 else 1 + sign + digits
      else 0
  | [] => 0

def fraction (cs : List Char) : Nat :=
  let digits := runLength isDigitOrUnderscore cs
  let scale := exponent (cs.drop digits)
  digits + scale + realSuffix (cs.drop (digits + scale))

def startsWithDigit : List Char → Bool
  | c :: _ => c.isDigit
  | [] => false

def number (cs : List Char) : LexemeRule × Nat :=
  let digits := runLength isDigitOrUnderscore cs
  let rest := cs.drop digits
  let scale := exponent rest
  match rest with
  | '.' :: behind =>
      if startsWithDigit behind then (.token .realLiteral, digits + 1 + fraction behind)
      else (.token .intLiteral, digits)
  | c :: _ =>
      if scale ≠ 0 then
        (.token .realLiteral, digits + scale + realSuffix (rest.drop scale))
      else if isRealSuffix c then (.token .realLiteral, digits + 1)
      else (.token .intLiteral, digits + integerSuffix rest)
  | [] => (.token .intLiteral, digits)

/-- A literal that starts with `0x`, once a digit follows; otherwise a plain number. -/
def hexNumber (cs behind : List Char) : LexemeRule × Nat :=
  let digits := runLength isHexOrUnderscore behind
  if digits = 0 then number cs
  else (.token .intLiteral, 2 + digits + integerSuffix (behind.drop digits))

/-- The length of a literal's text up to its closing quote, and whether there is one.
A backslash takes the next character with it; a line feed ends the search. -/
def literalBody (quote : Char) : List Char → Nat × Bool
  | [] => (0, false)
  | c :: rest =>
      if c = quote then (1, true)
      else if c = '\n' then (0, false)
      else if c = '\\' then
        match rest with
        | [] => (0, false)
        | d :: rest =>
            if d = '\n' then (0, false)
            else
              let (n, closed) := literalBody quote rest
              (n + 2, closed)
      else
        let (n, closed) := literalBody quote rest
        (n + 1, closed)

def literal (kind : TokenKind) (quote : Char) (rest : List Char) : LexemeRule × Nat :=
  let (n, closed) := literalBody quote rest
  (if closed then .token kind else .unclosed kind, n + 1)

/-- As `literalBody`, for a verbatim string: a quote is written as two quotes. -/
def verbatimBody : List Char → Nat × Bool
  | '"' :: '"' :: rest =>
      let (n, closed) := verbatimBody rest
      (n + 2, closed)
  | '"' :: _ => (1, true)
  | _ :: rest =>
      let (n, closed) := verbatimBody rest
      (n + 1, closed)
  | [] => (0, false)

def verbatim (rest : List Char) : LexemeRule × Nat :=
  let (n, closed) := verbatimBody rest
  (if closed then .token .stringLiteral else .unclosedVerbatim, n + 2)

def isWhitespace (c : Char) : Bool :=
  c == ' ' || c == '\t' || c == '\r' || c == '\x0b' || c == '\x0c'

def commentBody : List Char → Nat × Bool
  | '*' :: '/' :: _ => (2, true)
  | _ :: rest =>
      let (n, closed) := commentBody rest
      (n + 1, closed)
  | [] => (0, false)

def isIdentifierStart (c : Char) : Bool := c == '_' || isLetter c

def isIdentifierPart (c : Char) : Bool := isIdentifierStart c || isDecimalDigit c

def startsIdentifier : List Char → Bool
  | c :: _ => isIdentifierStart c
  | [] => false

def startsIdentifierPart (c : Char) : Bool :=
  if c.toNat < 0x80 then isIdentifierPart c
  else letterRanges.shareFirstByte c || decimalDigitRanges.shareFirstByte c

/-- What a run of identifier parts is in front of a rest. Rules are matched byte by byte: a
keyword is given up at a first byte that could go on with an identifier, also when the
character as a whole does not. -/
def wordKind (text rest : List Char) : TokenKind :=
  match TokenKind.keyword? (String.ofList text) with
  | none => .identifier
  | some keyword => if rest.head?.any startsIdentifierPart then .identifier else keyword

def word (cs : List Char) : LexemeRule × Nat :=
  let text := cs.takeWhile isIdentifierPart
  (.token (wordKind text (cs.dropWhile isIdentifierPart)), text.length)

/-- The longest punctuation that `cs` starts with. There is no `>>`: a right shift is
two tokens, so that two type argument lists can close side by side. -/
def punctuation? : List Char → Option (TokenKind × Nat)
  | '\x7b' :: _ => some (.lBrace, 1)
  | '\x7d' :: _ => some (.rBrace, 1)
  | '(' :: _ => some (.lParen, 1)
  | ')' :: _ => some (.rParen, 1)
  | '[' :: _ => some (.lBracket, 1)
  | ']' :: _ => some (.rBracket, 1)
  | ';' :: _ => some (.semicolon, 1)
  | ',' :: _ => some (.comma, 1)
  | '.' :: _ => some (.dot, 1)
  | ':' :: ':' :: _ => some (.colonColon, 2)
  | ':' :: _ => some (.colon, 1)
  | '?' :: '?' :: _ => some (.questionQuestion, 2)
  | '?' :: _ => some (.question, 1)
  | '=' :: '>' :: _ => some (.arrow, 2)
  | '=' :: '=' :: _ => some (.eqEq, 2)
  | '=' :: _ => some (.eq, 1)
  | '+' :: '+' :: _ => some (.plusPlus, 2)
  | '+' :: '=' :: _ => some (.plusEq, 2)
  | '+' :: _ => some (.plus, 1)
  | '-' :: '-' :: _ => some (.minusMinus, 2)
  | '-' :: '=' :: _ => some (.minusEq, 2)
  | '-' :: _ => some (.minus, 1)
  | '*' :: '=' :: _ => some (.starEq, 2)
  | '*' :: _ => some (.star, 1)
  | '/' :: '=' :: _ => some (.slashEq, 2)
  | '/' :: _ => some (.slash, 1)
  | '%' :: '=' :: _ => some (.percentEq, 2)
  | '%' :: _ => some (.percent, 1)
  | '&' :: '&' :: _ => some (.ampAmp, 2)
  | '&' :: '=' :: _ => some (.ampEq, 2)
  | '&' :: _ => some (.amp, 1)
  | '|' :: '|' :: _ => some (.pipePipe, 2)
  | '|' :: '=' :: _ => some (.pipeEq, 2)
  | '|' :: _ => some (.pipe, 1)
  | '^' :: '=' :: _ => some (.caretEq, 2)
  | '^' :: _ => some (.caret, 1)
  | '!' :: '=' :: _ => some (.bangEq, 2)
  | '!' :: _ => some (.bang, 1)
  | '~' :: _ => some (.tilde, 1)
  | '<' :: '<' :: '=' :: _ => some (.ltLtEq, 3)
  | '<' :: '<' :: _ => some (.ltLt, 2)
  | '<' :: '=' :: _ => some (.ltEq, 2)
  | '<' :: _ => some (.lt, 1)
  | '>' :: '=' :: _ => some (.gtEq, 2)
  | '>' :: _ => some (.gt, 1)
  | _ => none

/-! ## Lexemes -/

def punctuationOrUnmatched (cs : List Char) : LexemeRule × Nat :=
  match punctuation? cs with
  | some (kind, n) => (.token kind, n)
  | none => (.unmatched, 1)

def scan (c : Char) (rest : List Char) : LexemeRule × Nat :=
  if isWhitespace c then (.whitespace, 1 + runLength isWhitespace rest)
  else if c.isDigit then
    match c, rest with
    | '0', 'x' :: behind => hexNumber (c :: rest) behind
    | '0', 'X' :: behind => hexNumber (c :: rest) behind
    | _, _ => number (c :: rest)
  else if isIdentifierStart c then word (c :: rest)
  else
    match c, rest with
    | '\n', _ => (.newline, 1)
    | '\ufeff', _ => (.byteOrderMark, 1)
    | '/', '/' :: behind => (.lineComment, 2 + runLength (· != '\n') behind)
    | '/', '*' :: behind =>
        let (n, closed) := commentBody behind
        (.blockComment closed, n + 2)
    | '"', rest => literal .stringLiteral '"' rest
    | '\'', rest => literal .charLiteral '\'' rest
    | '@', '"' :: behind => verbatim behind
    | '@', rest =>
        if startsIdentifier rest then (.token .identifier, 1 + runLength isIdentifierPart rest)
        else (.unmatched, 1)
    | '.', rest =>
        if startsWithDigit rest then (.token .realLiteral, 1 + fraction rest)
        else (.token .dot, 1)
    | c, rest => punctuationOrUnmatched (c :: rest)

end LexemeRule

structure Lexeme where
  rule : LexemeRule
  span : Span
  text : List Char
deriving DecidableEq, Repr, Inhabited

namespace Lexeme

def byteLength (cs : List Char) : Nat := cs.foldr (fun c length => c.utf8Size + length) 0

/-- The lexemes of a text that starts at a byte offset and has at most the given
number of characters. -/
def listFrom : Nat → Nat → List Char → List Lexeme
  | fuel + 1, offset, c :: rest =>
      let (rule, n) := LexemeRule.scan c rest
      let text := (c :: rest).take n
      let stop := offset + byteLength text
      ⟨rule, ⟨offset, stop⟩, text⟩ :: listFrom fuel stop ((c :: rest).drop n)
  | _, _, _ => []

def ofText (text : String) : List Lexeme := listFrom text.length 0 text.toList

/-- A byte order mark is trivia only at the very start of a text. -/
def isTrivia (lexeme : Lexeme) : Bool :=
  match lexeme.rule with
  | .whitespace | .newline | .lineComment | .blockComment _ => true
  | .byteOrderMark => lexeme.span.start == 0
  | _ => false

def breaksLine (lexeme : Lexeme) : Bool :=
  match lexeme.rule with
  | .newline => true
  | .blockComment _ => lexeme.text.contains '\n'
  | _ => false

def kind (lexeme : Lexeme) : TokenKind :=
  match lexeme.rule with
  | .token kind | .unclosed kind => kind
  | .unclosedVerbatim => .stringLiteral
  | _ => .unknown

def diagnostic? (lexeme : Lexeme) : Option Diagnostic :=
  match lexeme.rule with
  | .unclosed _ => some (.error .newlineInConst lexeme.span [])
  | .unclosedVerbatim => some (.error .unterminatedStringLit lexeme.span [])
  | .blockComment false => some (.error .openEndedComment lexeme.span [])
  | .unmatched => some (.error .unexpectedCharacter lexeme.span [String.ofList lexeme.text])
  | .byteOrderMark =>
      if lexeme.isTrivia then none
      else some (.error .unexpectedCharacter lexeme.span [String.ofList lexeme.text])
  | _ => none

end Lexeme
end TolerantSyntax
