/-!
# Token kinds

The kind of a token, in a fixed order: names and literals, the keywords (modifiers,
then predefined types, then the others), punctuation, and the two kinds for a
character that fits no rule and for the end of the text.
-/

namespace TolerantSyntax

inductive TokenKind where
  | identifier | intLiteral | realLiteral | stringLiteral | charLiteral
  | abstractKw | constKw | externKw | internalKw | newKw | overrideKw | privateKw | protectedKw
  | publicKw | readonlyKw | sealedKw | staticKw | unsafeKw | virtualKw | volatileKw
  | boolKw | byteKw | charKw | decimalKw | doubleKw | floatKw | intKw | longKw | objectKw
  | sbyteKw | shortKw | stringKw | uintKw | ulongKw | ushortKw | voidKw
  | asKw | baseKw | classKw | defaultKw | delegateKw | elseKw | explicitKw | falseKw | ifKw
  | implicitKw | inKw | interfaceKw | isKw | namespaceKw | nullKw | operatorKw | outKw | paramsKw
  | refKw | returnKw | structKw | thisKw | throwKw | trueKw | typeofKw | usingKw | whileKw
  | lBrace | rBrace | lParen | rParen | lBracket | rBracket | semicolon | comma | dot | colon
  | colonColon | question | questionQuestion | arrow | plus | minus | star | slash | percent
  | amp | ampAmp | pipe | pipePipe | caret | bang | tilde | eq | eqEq | bangEq | lt | ltEq | ltLt
  | gt | gtEq | plusPlus | minusMinus | plusEq | minusEq | starEq | slashEq | percentEq | ampEq
  | pipeEq | caretEq | ltLtEq
  | unknown | eof
deriving DecidableEq, Repr, Inhabited

namespace TokenKind

def index (kind : TokenKind) : Nat := kind.ctorIdx

/-! ## Spelling -/

def name : TokenKind → String
  | .identifier => "Identifier"
  | .intLiteral => "IntLiteral"
  | .realLiteral => "RealLiteral"
  | .stringLiteral => "StringLiteral"
  | .charLiteral => "CharLiteral"
  | .abstractKw => "Abstract"
  | .constKw => "Const"
  | .externKw => "Extern"
  | .internalKw => "Internal"
  | .newKw => "New"
  | .overrideKw => "Override"
  | .privateKw => "Private"
  | .protectedKw => "Protected"
  | .publicKw => "Public"
  | .readonlyKw => "Readonly"
  | .sealedKw => "Sealed"
  | .staticKw => "Static"
  | .unsafeKw => "Unsafe"
  | .virtualKw => "Virtual"
  | .volatileKw => "Volatile"
  | .boolKw => "Bool"
  | .byteKw => "Byte"
  | .charKw => "Char"
  | .decimalKw => "Decimal"
  | .doubleKw => "Double"
  | .floatKw => "Float"
  | .intKw => "Int"
  | .longKw => "Long"
  | .objectKw => "Object"
  | .sbyteKw => "Sbyte"
  | .shortKw => "Short"
  | .stringKw => "String"
  | .uintKw => "Uint"
  | .ulongKw => "Ulong"
  | .ushortKw => "Ushort"
  | .voidKw => "Void"
  | .asKw => "As"
  | .baseKw => "Base"
  | .classKw => "Class"
  | .defaultKw => "Default"
  | .delegateKw => "Delegate"
  | .elseKw => "Else"
  | .explicitKw => "Explicit"
  | .falseKw => "False"
  | .ifKw => "If"
  | .implicitKw => "Implicit"
  | .inKw => "In"
  | .interfaceKw => "Interface"
  | .isKw => "Is"
  | .namespaceKw => "Namespace"
  | .nullKw => "Null"
  | .operatorKw => "Operator"
  | .outKw => "Out"
  | .paramsKw => "Params"
  | .refKw => "Ref"
  | .returnKw => "Return"
  | .structKw => "Struct"
  | .thisKw => "This"
  | .throwKw => "Throw"
  | .trueKw => "True"
  | .typeofKw => "Typeof"
  | .usingKw => "Using"
  | .whileKw => "While"
  | .lBrace => "LBrace"
  | .rBrace => "RBrace"
  | .lParen => "LParen"
  | .rParen => "RParen"
  | .lBracket => "LBracket"
  | .rBracket => "RBracket"
  | .semicolon => "Semicolon"
  | .comma => "Comma"
  | .dot => "Dot"
  | .colon => "Colon"
  | .colonColon => "ColonColon"
  | .question => "Question"
  | .questionQuestion => "QuestionQuestion"
  | .arrow => "Arrow"
  | .plus => "Plus"
  | .minus => "Minus"
  | .star => "Star"
  | .slash => "Slash"
  | .percent => "Percent"
  | .amp => "Amp"
  | .ampAmp => "AmpAmp"
  | .pipe => "Pipe"
  | .pipePipe => "PipePipe"
  | .caret => "Caret"
  | .bang => "Bang"
  | .tilde => "Tilde"
  | .eq => "Eq"
  | .eqEq => "EqEq"
  | .bangEq => "BangEq"
  | .lt => "Lt"
  | .ltEq => "LtEq"
  | .ltLt => "LtLt"
  | .gt => "Gt"
  | .gtEq => "GtEq"
  | .plusPlus => "PlusPlus"
  | .minusMinus => "MinusMinus"
  | .plusEq => "PlusEq"
  | .minusEq => "MinusEq"
  | .starEq => "StarEq"
  | .slashEq => "SlashEq"
  | .percentEq => "PercentEq"
  | .ampEq => "AmpEq"
  | .pipeEq => "PipeEq"
  | .caretEq => "CaretEq"
  | .ltLtEq => "LtLtEq"
  | .unknown => "Unknown"
  | .eof => "Eof"

/-- The text of a keyword or of punctuation; the other kinds have no fixed text. -/
def fixedText? : TokenKind → Option String
  | .identifier | .intLiteral | .realLiteral | .stringLiteral | .charLiteral
  | .unknown | .eof => none
  | .abstractKw => some "abstract"
  | .constKw => some "const"
  | .externKw => some "extern"
  | .internalKw => some "internal"
  | .newKw => some "new"
  | .overrideKw => some "override"
  | .privateKw => some "private"
  | .protectedKw => some "protected"
  | .publicKw => some "public"
  | .readonlyKw => some "readonly"
  | .sealedKw => some "sealed"
  | .staticKw => some "static"
  | .unsafeKw => some "unsafe"
  | .virtualKw => some "virtual"
  | .volatileKw => some "volatile"
  | .boolKw => some "bool"
  | .byteKw => some "byte"
  | .charKw => some "char"
  | .decimalKw => some "decimal"
  | .doubleKw => some "double"
  | .floatKw => some "float"
  | .intKw => some "int"
  | .longKw => some "long"
  | .objectKw => some "object"
  | .sbyteKw => some "sbyte"
  | .shortKw => some "short"
  | .stringKw => some "string"
  | .uintKw => some "uint"
  | .ulongKw => some "ulong"
  | .ushortKw => some "ushort"
  | .voidKw => some "void"
  | .asKw => some "as"
  | .baseKw => some "base"
  | .classKw => some "class"
  | .defaultKw => some "default"
  | .delegateKw => some "delegate"
  | .elseKw => some "else"
  | .explicitKw => some "explicit"
  | .falseKw => some "false"
  | .ifKw => some "if"
  | .implicitKw => some "implicit"
  | .inKw => some "in"
  | .interfaceKw => some "interface"
  | .isKw => some "is"
  | .namespaceKw => some "namespace"
  | .nullKw => some "null"
  | .operatorKw => some "operator"
  | .outKw => some "out"
  | .paramsKw => some "params"
  | .refKw => some "ref"
  | .returnKw => some "return"
  | .structKw => some "struct"
  | .thisKw => some "this"
  | .throwKw => some "throw"
  | .trueKw => some "true"
  | .typeofKw => some "typeof"
  | .usingKw => some "using"
  | .whileKw => some "while"
  | .lBrace => some "\x7b"
  | .rBrace => some "\x7d"
  | .lParen => some "("
  | .rParen => some ")"
  | .lBracket => some "["
  | .rBracket => some "]"
  | .semicolon => some ";"
  | .comma => some ","
  | .dot => some "."
  | .colon => some ":"
  | .colonColon => some "::"
  | .question => some "?"
  | .questionQuestion => some "??"
  | .arrow => some "=>"
  | .plus => some "+"
  | .minus => some "-"
  | .star => some "*"
  | .slash => some "/"
  | .percent => some "%"
  | .amp => some "&"
  | .ampAmp => some "&&"
  | .pipe => some "|"
  | .pipePipe => some "||"
  | .caret => some "^"
  | .bang => some "!"
  | .tilde => some "~"
  | .eq => some "="
  | .eqEq => some "=="
  | .bangEq => some "!="
  | .lt => some "<"
  | .ltEq => some "<="
  | .ltLt => some "<<"
  | .gt => some ">"
  | .gtEq => some ">="
  | .plusPlus => some "++"
  | .minusMinus => some "--"
  | .plusEq => some "+="
  | .minusEq => some "-="
  | .starEq => some "*="
  | .slashEq => some "/="
  | .percentEq => some "%="
  | .ampEq => some "&="
  | .pipeEq => some "|="
  | .caretEq => some "^="
  | .ltLtEq => some "<<="

def displayName (kind : TokenKind) : String :=
  match kind with
  | .identifier => "identifier"
  | .intLiteral => "integer literal"
  | .realLiteral => "real literal"
  | .stringLiteral => "string literal"
  | .charLiteral => "character literal"
  | .unknown => "unknown character"
  | .eof => "end of file"
  | kind => kind.fixedText?.getD "token"

/-! ## Classes and contextual keywords -/

def all : List TokenKind :=
  [.identifier, .intLiteral, .realLiteral, .stringLiteral, .charLiteral, .abstractKw, .constKw,
   .externKw, .internalKw, .newKw, .overrideKw, .privateKw, .protectedKw, .publicKw, .readonlyKw,
   .sealedKw, .staticKw, .unsafeKw, .virtualKw, .volatileKw, .boolKw, .byteKw, .charKw,
   .decimalKw, .doubleKw, .floatKw, .intKw, .longKw, .objectKw, .sbyteKw, .shortKw, .stringKw,
   .uintKw, .ulongKw, .ushortKw, .voidKw, .asKw, .baseKw, .classKw, .defaultKw, .delegateKw,
   .elseKw, .explicitKw, .falseKw, .ifKw, .implicitKw, .inKw, .interfaceKw, .isKw, .namespaceKw,
   .nullKw, .operatorKw, .outKw, .paramsKw, .refKw, .returnKw, .structKw, .thisKw, .throwKw,
   .trueKw, .typeofKw, .usingKw, .whileKw, .lBrace, .rBrace, .lParen, .rParen, .lBracket,
   .rBracket, .semicolon, .comma, .dot, .colon, .colonColon, .question, .questionQuestion,
   .arrow, .plus, .minus, .star, .slash, .percent, .amp, .ampAmp, .pipe, .pipePipe, .caret,
   .bang, .tilde, .eq, .eqEq, .bangEq, .lt, .ltEq, .ltLt, .gt, .gtEq, .plusPlus, .minusMinus,
   .plusEq, .minusEq, .starEq, .slashEq, .percentEq, .ampEq, .pipeEq, .caretEq, .ltLtEq,
   .unknown, .eof]

theorem mem_all (kind : TokenKind) : kind ∈ all := by cases kind <;> decide

def count : Nat := all.length

def ofName? (name : String) : Option TokenKind := all.find? (·.name == name)

def isPredefinedType (kind : TokenKind) : Bool :=
  boolKw.index ≤ kind.index && kind.index ≤ voidKw.index

def isKeyword (kind : TokenKind) : Bool :=
  abstractKw.index ≤ kind.index && kind.index ≤ whileKw.index

def isLiteral : TokenKind → Bool
  | .intLiteral | .realLiteral | .stringLiteral | .charLiteral
  | .trueKw | .falseKw | .nullKw => true
  | _ => false

def keywords : List TokenKind := all.filter isKeyword

def keyword? (text : String) : Option TokenKind :=
  keywords.find? (·.fixedText? == some text)

end TokenKind

/-- The keyword that an identifier may act as in some places. -/
inductive ContextualKeyword where
  | none
  | asyncWord
  | partialWord
  | getWord
  | setWord
deriving DecidableEq, Repr, Inhabited

namespace ContextualKeyword

def name : ContextualKeyword → String
  | .none => "None"
  | .asyncWord => "Async"
  | .partialWord => "Partial"
  | .getWord => "Get"
  | .setWord => "Set"

def all : List ContextualKeyword := [.none, .asyncWord, .partialWord, .getWord, .setWord]

def ofName? (name : String) : Option ContextualKeyword := all.find? (·.name == name)

def ofText (text : String) : ContextualKeyword :=
  match text with
  | "async" => .asyncWord
  | "partial" => .partialWord
  | "get" => .getWord
  | "set" => .setWord
  | _ => .none

end ContextualKeyword
end TolerantSyntax
