/-!
# Diagnostic codes

Everything that can be wrong with a text. A code has two spellings, an identifier
and a number, a message template with numbered placeholders, and an explanation.
-/

namespace TolerantSyntax

inductive DiagnosticCode where
  | unexpectedCharacter
  | newlineInConst
  | unterminatedStringLit
  | openEndedComment
  /-- A specific token is missing; arguments: the expected and the found text. -/
  | syntaxError
  | identifierExpected
  | semicolonExpected
  | closeParenExpected
  | rbraceExpected
  | lbraceExpected
  | invalidMemberDecl
  | typeExpected
  | eofExpected
  | unexpectedToken
  | invalidExprTerm
  | tupleTooFewElements
  | ovlOperatorExpected
  | getOrSetExpected
  /-- Arguments: the feature and the version that it needs. -/
  | featureNotAvailableInVersion
deriving DecidableEq, Repr, Inhabited

namespace DiagnosticCode

def all : List DiagnosticCode :=
  [.unexpectedCharacter, .newlineInConst, .unterminatedStringLit, .openEndedComment,
   .syntaxError, .identifierExpected, .semicolonExpected, .closeParenExpected, .rbraceExpected,
   .lbraceExpected, .invalidMemberDecl, .typeExpected, .eofExpected, .unexpectedToken,
   .invalidExprTerm, .tupleTooFewElements, .ovlOperatorExpected, .getOrSetExpected,
   .featureNotAvailableInVersion]

def id : DiagnosticCode → String
  | .unexpectedCharacter => "ERR_UnexpectedCharacter"
  | .newlineInConst => "ERR_NewlineInConst"
  | .unterminatedStringLit => "ERR_UnterminatedStringLit"
  | .openEndedComment => "ERR_OpenEndedComment"
  | .syntaxError => "ERR_SyntaxError"
  | .identifierExpected => "ERR_IdentifierExpected"
  | .semicolonExpected => "ERR_SemicolonExpected"
  | .closeParenExpected => "ERR_CloseParenExpected"
  | .rbraceExpected => "ERR_RbraceExpected"
  | .lbraceExpected => "ERR_LbraceExpected"
  | .invalidMemberDecl => "ERR_InvalidMemberDecl"
  | .typeExpected => "ERR_TypeExpected"
  | .eofExpected => "ERR_EOFExpected"
  | .unexpectedToken => "ERR_UnexpectedToken"
  | .invalidExprTerm => "ERR_InvalidExprTerm"
  | .tupleTooFewElements => "ERR_TupleTooFewElements"
  | .ovlOperatorExpected => "ERR_OvlOperatorExpected"
  | .getOrSetExpected => "ERR_GetOrSetExpected"
  | .featureNotAvailableInVersion => "ERR_FeatureNotAvailableInVersion"

def number : DiagnosticCode → String
  | .unexpectedCharacter => "CS1056"
  | .newlineInConst => "CS1010"
  | .unterminatedStringLit => "CS1039"
  | .openEndedComment => "CS1035"
  | .syntaxError => "CS1003"
  | .identifierExpected => "CS1001"
  | .semicolonExpected => "CS1002"
  | .closeParenExpected => "CS1026"
  | .rbraceExpected => "CS1513"
  | .lbraceExpected => "CS1514"
  | .invalidMemberDecl => "CS1519"
  | .typeExpected => "CS1031"
  | .eofExpected => "CS1022"
  | .unexpectedToken => "CS1073"
  | .invalidExprTerm => "CS1525"
  | .tupleTooFewElements => "CS8124"
  | .ovlOperatorExpected => "CS1037"
  | .getOrSetExpected => "CS1014"
  | .featureNotAvailableInVersion => "CS8107"

def ofText? (text : String) : Option DiagnosticCode :=
  all.find? fun code => code.id.toLower == text.toLower || code.number.toLower == text.toLower

def template : DiagnosticCode → String
  | .unexpectedCharacter => "Unexpected character '\x7b0\x7d'"
  | .newlineInConst => "Newline in constant"
  | .unterminatedStringLit => "Unterminated string literal"
  | .openEndedComment => "End-of-file found, '*/' expected"
  | .syntaxError => "Syntax error, '\x7b0\x7d' expected"
  | .identifierExpected => "Identifier expected"
  | .semicolonExpected => "; expected"
  | .closeParenExpected => ") expected"
  | .rbraceExpected => "\x7d expected"
  | .lbraceExpected => "\x7b expected"
  | .invalidMemberDecl =>
      "Invalid token '\x7b0\x7d' in class, struct, or interface member declaration"
  | .typeExpected => "Type expected"
  | .eofExpected => "Type or namespace definition, or end-of-file expected"
  | .unexpectedToken => "Unexpected token '\x7b0\x7d'"
  | .invalidExprTerm => "Invalid expression term '\x7b0\x7d'"
  | .tupleTooFewElements => "Tuple must contain at least two elements."
  | .ovlOperatorExpected => "Overloadable operator expected"
  | .getOrSetExpected => "A get or set accessor expected"
  | .featureNotAvailableInVersion =>
      "Feature '\x7b0\x7d' is not available in this language version. Please use language " ++
      "version \x7b1\x7d or greater."

/-- The number of arguments that a diagnostic with this code carries. -/
def arity : DiagnosticCode → Nat
  | .syntaxError | .featureNotAvailableInVersion => 2
  | .unexpectedCharacter | .invalidMemberDecl | .unexpectedToken | .invalidExprTerm => 1
  | _ => 0

def description : DiagnosticCode → String
  | .unexpectedCharacter =>
      "The lexer met a character that cannot begin any token. The character is kept as an " ++
      "unknown token and the parser skips it like any other unexpected token."
  | .newlineInConst =>
      "A string or character literal reaches the end of its line without a closing quote. " ++
      "Regular literals cannot span lines; use a verbatim string (@\"...\")."
  | .unterminatedStringLit =>
      "A verbatim string (@\"...\") is never closed before the end of the file. Inside " ++
      "verbatim strings a quote is written as two quotes."
  | .openEndedComment =>
      "A block comment opened with /* is never closed with */ before the end of the file."
  | .syntaxError =>
      "A specific token was required here but a different one was found. The parser " ++
      "behaves as if the expected token were present and continues."
  | .identifierExpected =>
      "A name was required here, for example after a type."
  | .semicolonExpected =>
      "A statement or declaration is missing its final ';'."
  | .closeParenExpected =>
      "A parenthesized list is missing its closing ')'."
  | .rbraceExpected =>
      "A block or body is missing its closing '\x7d'."
  | .lbraceExpected =>
      "A block or body is missing its opening '\x7b'."
  | .invalidMemberDecl =>
      "The token cannot start or continue a member declaration. A declaration that stops " ++
      "at such a token is abandoned and the token is then skipped, so the same token is " ++
      "usually reported twice. By-ref return types also reject 'operator'."
  | .typeExpected =>
      "A type was required here. Modifiers must come before 'ref' and 'readonly ref'; " ++
      "'readonly ref virtual int' is rejected because 'virtual' sits in type position."
  | .eofExpected =>
      "A token at namespace or file level cannot begin a declaration, for example a stray " ++
      "'\x7d' after the last type."
  | .unexpectedToken =>
      "The token is not allowed at this position and is skipped. 'ref' inside tuple " ++
      "element types and generic type arguments is reported this way."
  | .invalidExprTerm =>
      "The token cannot begin an expression."
  | .tupleTooFewElements =>
      "Tuple types and literals need at least two elements."
  | .ovlOperatorExpected =>
      "The keyword 'operator' must be followed by an operator that can be overloaded, such " ++
      "as '+', '==' or 'true'."
  | .getOrSetExpected =>
      "Property and indexer bodies may only contain 'get' and 'set' accessors."
  | .featureNotAvailableInVersion =>
      "The construct is parsed normally but requires a newer language version than the one " ++
      "selected with --langversion."

def isLexical : DiagnosticCode → Bool
  | .unexpectedCharacter | .newlineInConst | .unterminatedStringLit | .openEndedComment => true
  | _ => false

end DiagnosticCode
end TolerantSyntax
