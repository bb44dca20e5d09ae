import TolerantSyntax.Token.Lexeme
import TolerantSyntax.Token.List

/-!
# From lexemes to tokens

Trivia is attached to tokens: what stands before a token belongs to it as leading
trivia, but for the trivia behind the previous token up to and with the first line
feed, which is the previous token's trailing trivia. The end-of-file token takes what
is left at the end. So the full spans of the tokens tile the text.
-/

namespace TolerantSyntax

structure Lexer where
  pending : List Lexeme
  textEnd : Nat
  offset : Nat
  /-- The previous token's trailing trivia ends its line. -/
  atLineStart : Bool
  /-- The previous token has no trailing trivia. -/
  touching : Bool
  started : Bool
  finished : Bool
  /-- The lexical errors so far, the latest first. -/
  reported : List Diagnostic
deriving Repr

namespace Lexer

def ofText (text : String) : Lexer :=
  ⟨Lexeme.ofText text, text.utf8ByteSize, 0, false, true, false, false, []⟩

/-- The trailing trivia at the front of a list of lexemes, and the rest. -/
def splitTrailing : List Lexeme → List Lexeme × List Lexeme
  | [] => ([], [])
  | lexeme :: rest =>
      if lexeme.isTrivia then
        if lexeme.rule = .newline then ([lexeme], rest)
        else
          let (trailing, behind) := splitTrailing rest
          (lexeme :: trailing, behind)
      else ([], lexeme :: rest)

def runSpan (offset : Nat) (run : List Lexeme) : Span :=
  ⟨offset, (run.getLast?.map (·.span.stop)).getD offset⟩

def report (run : List Lexeme) (reported : List Diagnostic) : List Diagnostic :=
  (run.filterMap (·.diagnostic?)).reverse ++ reported

def flags (lexer : Lexer) (leading trailing : Span) (newlineBefore : Bool) : TokenFlags where
  leadingTrivia := !leading.isEmpty
  newlineBefore := newlineBefore
  trailingTrivia := !trailing.isEmpty
  adjacent := lexer.started && lexer.touching && leading.isEmpty
  lineStart := newlineBefore || !lexer.started

def contextual (lexeme : Lexeme) : ContextualKeyword :=
  if lexeme.kind = .identifier then .ofText (String.ofList lexeme.text) else .none

/-- The next token. At the end of the text every call gives an end of file. -/
def next (lexer : Lexer) : Token × Lexer :=
  let (before, rest) := lexer.pending.span (·.isTrivia)
  let leading := runSpan lexer.offset before
  let newlineBefore := before.any (·.breaksLine) || (lexer.started && lexer.atLineStart)
  let reported := report before lexer.reported
  match rest with
  | [] =>
      let stop : Span := .point lexer.textEnd
      let lexer := { lexer with pending := [], offset := leading.stop, reported }
      if lexer.finished then (.bare .eof stop, lexer)
      else
        let token := { Token.bare .eof stop with
          leading, flags := lexer.flags leading stop newlineBefore }
        (token, { lexer with finished := true })
  | lexeme :: rest =>
      let (behind, pending) := splitTrailing rest
      let trailing := runSpan lexeme.span.stop behind
      let token : Token :=
        { kind := lexeme.kind, contextual := contextual lexeme, span := lexeme.span,
          flags := lexer.flags leading trailing newlineBefore, leading, trailing }
      (token,
        { lexer with
          pending, offset := trailing.stop, atLineStart := behind.any (·.breaksLine),
          touching := trailing.isEmpty, started := true,
          reported := report (lexeme :: behind) reported })

def diagnostics (lexer : Lexer) : List Diagnostic := lexer.reported.reverse

end Lexer

/-- The tokens of a text, the last of which is the end of file, and the lexical errors. -/
structure Lexed where
  tokens : TokenList
  diagnostics : List Diagnostic
deriving Repr

/-- Reads tokens up to the end of file; every other token takes a lexeme. -/
def Lexer.drain : Nat → Lexer → TokenList → Lexed
  | 0, lexer, tokens => ⟨tokens, lexer.diagnostics⟩
  | fuel + 1, lexer, tokens =>
      let (token, lexer) := lexer.next
      let tokens := tokens.push token
      if token.kind = .eof then ⟨tokens, lexer.diagnostics⟩
      else drain fuel lexer tokens

def lex (text : String) : Lexed :=
  let lexer := Lexer.ofText text
  lexer.drain (lexer.pending.length + 1) ⟨#[]⟩

end TolerantSyntax
