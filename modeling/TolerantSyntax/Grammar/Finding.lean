import TolerantSyntax.Diagnostic.Basic
import TolerantSyntax.Token.List
import TolerantSyntax.Version

/-!
# Findings

What the grammar notes while it reads a sentence: the cause, and the index of the symbol
where it was noted. A finding knows neither the layout of the text nor the language
version; both come in when it is turned into a diagnostic.
-/

namespace TolerantSyntax

inductive Finding where
  /-- A symbol of the kind is required in front of the index. -/
  | absent (kind : TokenKind) (place : Nat)
  | typeExpected (place : Nat)
  | strayInType (place : Nat)
  | strayOutside (place : Nat)
  | invalidTerm (place : Nat)
  /-- `ref` where an element type is required. -/
  | skippedRef (place : Nat)
  | shortTuple (opening : Nat)
  | operatorExpected (place : Nat)
  | accessorExpected (place : Nat)
  | uses (feature : Feature) (place : Nat)
deriving DecidableEq, Repr

namespace Finding

def tokenAt (tokens : TokenList) (index : Nat) : Token := (tokens.get? index).getD default

def spanAt (tokens : TokenList) (index : Nat) : Span := (tokenAt tokens index).span

def textAt (source : String) (tokens : TokenList) (index : Nat) : String :=
  let token := tokenAt tokens index
  if token.kind = .eof then token.kind.displayName else token.span.slice source

/-- Where an absent token is reported: at the token found instead, unless that one starts
a new line. Then it is right behind the token before, where the absent one belongs. -/
def absentSpan (tokens : TokenList) (index : Nat) : Span :=
  let token := tokenAt tokens index
  if token.flags.newlineBefore ∧ 0 < index then .point (spanAt tokens (index - 1)).stop
  else token.span

def absentDiagnostic (source : String) (tokens : TokenList) (kind : TokenKind) (index : Nat) :
    Diagnostic :=
  let span := absentSpan tokens index
  match kind with
  | .rParen => .error .closeParenExpected span []
  | .semicolon => .error .semicolonExpected span []
  | .rBrace => .error .rbraceExpected span []
  | .lBrace => .error .lbraceExpected span []
  | .identifier => .error .identifierExpected span []
  | kind => .expected span (kind.fixedText?.getD kind.displayName) (textAt source tokens index)

/-- The diagnostic for a finding; none for a feature that the version has. -/
def diagnostic? (source : String) (tokens : TokenList) (version : LanguageVersion) :
    Finding → Option Diagnostic
  | absent kind index => some (absentDiagnostic source tokens kind index)
  | typeExpected index => some (.error .typeExpected (spanAt tokens index) [])
  | strayInType index =>
      some (.invalidMember (spanAt tokens index) (textAt source tokens index))
  | strayOutside index => some (.error .eofExpected (spanAt tokens index) [])
  | invalidTerm index =>
      some (.error .invalidExprTerm (spanAt tokens index) [textAt source tokens index])
  | skippedRef index => some (.unexpectedToken (spanAt tokens index) "ref")
  | shortTuple opening => some (.error .tupleTooFewElements (spanAt tokens opening) [])
  | operatorExpected index => some (.error .ovlOperatorExpected (spanAt tokens index) [])
  | accessorExpected index => some (.error .getOrSetExpected (spanAt tokens index) [])
  | uses feature index => feature.check? version (spanAt tokens index)

end Finding
end TolerantSyntax
