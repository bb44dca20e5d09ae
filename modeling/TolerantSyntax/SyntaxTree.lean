import TolerantSyntax.Diagnostic.Basic
import TolerantSyntax.Grammar.Member
import TolerantSyntax.Token.Lexer

/-!
# Syntax trees

Reading a text never fails: what is wrong with it is in the diagnostics and in the
error nodes of the tree. The version decides about diagnostics only.
-/

namespace TolerantSyntax

structure SyntaxTree where
  source : String
  tokens : TokenList
  root : CompilationUnit
  exprs : ExprTable
  /-- By the start of their spans; at one start, the lexical ones first. -/
  diagnostics : List Diagnostic
  version : LanguageVersion

namespace SyntaxTree

/-- A token list with an end of file, which stands at the end of the text if it is added. -/
def closeTokens (source : String) (tokens : TokenList) : TokenList :=
  if tokens.endsWithEof then tokens
  else tokens.push (.bare .eof (.point source.utf8ByteSize))

def ofSentence (sentence : Sentence) : CompilationUnit × ParseState :=
  Parse.compilationUnit (.ofSentence sentence) .start

def findingsIn (source : String) (tokens : TokenList) (version : LanguageVersion)
    (state : ParseState) : List Diagnostic :=
  state.findings.reverse.filterMap (·.diagnostic? source tokens version)

/-- Reads tokens that need not come from the text. -/
def ofTokens (source : String) (tokens : TokenList) (lexical : List Diagnostic)
    (version : LanguageVersion) : SyntaxTree :=
  let tokens := closeTokens source tokens
  let (root, state) := ofSentence (.ofTokens tokens)
  let bag : DiagnosticBag := ⟨lexical ++ findingsIn source tokens version state⟩
  ⟨source, tokens, root, state.exprs, bag.sorted, version⟩

def ofText (source : String) (version : LanguageVersion) : SyntaxTree :=
  let lexed := lex source
  ofTokens source lexed.tokens lexed.diagnostics version

def hasErrors (tree : SyntaxTree) : Bool := tree.diagnostics.any (·.isError)

def text (tree : SyntaxTree) (range : TokenRange) : String := tree.tokens.text tree.source range

def tokenText (tree : SyntaxTree) (index : Nat) : String := tree.text (.single index)

/-- The ranges of the outermost members, and of the end of file. -/
def outerRanges (tree : SyntaxTree) : List TokenRange :=
  tree.root.members.map (·.range) ++ [.single tree.root.eof]

def fullText (tree : SyntaxTree) : String :=
  String.join ((tree.outerRanges.flatMap tree.tokens.slice).map (·.fullSpan.slice tree.source))

end SyntaxTree
end TolerantSyntax
