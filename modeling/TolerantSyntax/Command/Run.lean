import TolerantSyntax.Command.Files
import TolerantSyntax.Outline
import TolerantSyntax.Text.Quoted

/-!
# Commands

What the command line does with its arguments: the output of each command, and the exit
code that tells how it went. All that it asks about files it asks of the access to them that
it is given, in memory or on a system.
-/

namespace TolerantSyntax

/-- The text that a command writes, and whether it found errors in a source. -/
structure Listing where
  text : String
  failed : Bool
deriving DecidableEq, Repr

namespace Listing

def ofTokens (options : CommandOptions) (path source : String) : Listing :=
  let lexed := lex source
  let line (token : Token) : String :=
    "  " ++ token.render ++ " " ++ Quoted.quote (token.span.slice source) ++ "\n"
  ⟨s!"Tokens for '{path}' ({lexed.tokens.size} tokens):\n"
      ++ String.join (lexed.tokens.tokens.toList.map line)
      ++ options.report path source lexed.diagnostics,
    lexed.diagnostics.any (·.isError)⟩

def ofTree (options : CommandOptions) (path : String) (tree : SyntaxTree) : Listing :=
  ⟨tree.outline ++ options.report path tree.source tree.diagnostics, tree.hasErrors⟩

def ofCode (text : String) : Except CommandError Listing :=
  match DiagnosticCode.ofText? text with
  | none => .error (.unknownCode text)
  | some code =>
      .ok ⟨s!"{code.number} ({code.id})\n  {code.template}\n\n{code.description}\n", false⟩

end Listing

structure FilesReport where
  text : String
  files : Nat
  errors : Nat
  warnings : Nat
deriving DecidableEq, Repr

namespace FilesReport

def hasErrors (report : FilesReport) : Bool := 0 < report.errors

def add (options : CommandOptions) (report : FilesReport) (path : String) (tree : SyntaxTree) :
    FilesReport :=
  let bag : DiagnosticBag := ⟨tree.diagnostics⟩
  ⟨report.text ++ options.report path tree.source tree.diagnostics, report.files + 1,
    report.errors + bag.countOf .error, report.warnings + bag.countOf .warning⟩

def finish (options : CommandOptions) (report : FilesReport) : FilesReport :=
  match options.format with
  | .json => report
  | .terminal =>
      { report with
        text := report.text ++ TerminalReport.summary options.colors report.errors report.warnings }

def ofSources (options : CommandOptions) (sources : List (String × String)) : FilesReport :=
  let report := sources.foldl (fun (report : FilesReport) (path, source) =>
    report.add options path (.ofText source options.version)) ⟨"", 0, 0, 0⟩
  report.finish options

end FilesReport

namespace FileAccess

variable {m : Type → Type} [Monad m]

/-! ## Commands -/

/-- The sources at the paths, up to the first that cannot be read. -/
def readSources (files : FileAccess m) :
    List String → m (Except CommandError (List (String × String)))
  | [] => return .ok []
  | path :: rest => do
      match ← files.readSource path with
      | .error error => return .error error
      | .ok source => return (← files.readSources rest).map ((path, source) :: ·)

def reportOn (files : FileAccess m) (options : CommandOptions) (paths : List String) :
    m (Except CommandError FilesReport) := do
  match ← files.sources paths with
  | [] => return .error (.missingArgument "source file")
  | paths => return (← files.readSources paths).map (FilesReport.ofSources options)

def listTokens (files : FileAccess m) (options : CommandOptions) (path : String) :
    m (Except CommandError Listing) := do
  return (← files.readSource path).map (Listing.ofTokens options path)

def listTree (files : FileAccess m) (options : CommandOptions) (path : String) :
    m (Except CommandError Listing) := do
  return (← files.readSource path).map fun source =>
    Listing.ofTree options path (.ofText source options.version)

end FileAccess

namespace CommandLine

def usage : String :=
"Cinder front end

Usage: cinderc <command> [options]

Commands:
  parse <paths...>     Parse files or directories and report diagnostics
  lex <file.cs>        Tokenize a file and display the tokens
  tree <file.cs>       Parse a file and display its syntax tree
  explain <code>       Explain a diagnostic code (e.g., CS1003)
  help                 Show this help message
  version              Show version information

Options:
  --langversion=<v>    1-6, 7, 7.0, 7.1, latest or default
                       (falls back to $CINDER_LANGVERSION)
  --format=<f>         terminal (default) or json
  --color=<mode>       auto (default), always or never

Exit codes: 0 no errors, 1 syntax errors, 2 usage or I/O failure

Examples:
  cinderc parse src/
  cinderc parse Program.cs --langversion=7.0
  cinderc tree Program.cs
  cinderc explain ERR_InvalidMemberDecl

Set RUST_LOG=cinder_parse=debug to trace recovery decisions.
"

def versionText : String := "cinderc 0.1.0\n"

def versionVariable : String := "CINDER_LANGVERSION"

/-- What a run writes to the two outputs, and its exit code. -/
structure Outcome where
  output : String
  errorOutput : String
  code : Nat
deriving DecidableEq, Repr

namespace Outcome

def shown (text : String) : Outcome := ⟨text, "", 0⟩

def ofError (error : CommandError) : Outcome := ⟨"", s!"error: {error.message}\n", 2⟩

def ofListing : Except CommandError Listing → Outcome
  | .error error => ofError error
  | .ok listing => ⟨listing.text, "", if listing.failed then 1 else 0⟩

def ofReport : Except CommandError FilesReport → Outcome
  | .error error => ofError error
  | .ok report => ⟨report.text, "", if report.hasErrors then 1 else 0⟩

def unknownCommand (command : String) : Outcome :=
  ⟨usage, s!"Unknown command: {command}\n\n", 1⟩

end Outcome

variable {m : Type → Type} [Monad m]

def onFirst (rest : List String) (what : String)
    (command : String → m (Except CommandError Listing)) : m Outcome := do
  match rest with
  | [] => return .ofError (.missingArgument what)
  | first :: _ => return .ofListing (← command first)

def runCommand (files : FileAccess m) (command : String) (options : CommandOptions)
    (rest : List String) : m Outcome := do
  match command with
  | "parse" => return .ofReport (← files.reportOn options rest)
  | "lex" => onFirst rest "file" (files.listTokens options)
  | "tree" => onFirst rest "file" (files.listTree options)
  | "explain" | "--explain" => onFirst rest "error code" fun code => return Listing.ofCode code
  | command => return .unknownCommand command

def run (files : FileAccess m) (args : List String) (environment? : Option String)
    (isTerminal : Bool) : m Outcome := do
  match args with
  | [] | "help" :: _ | "--help" :: _ | "-h" :: _ => return .shown usage
  | "version" :: _ | "--version" :: _ | "-V" :: _ => return .shown versionText
  | command :: args =>
      match CommandOptions.ofArgs args environment? with
      | .error error => return .ofError error
      | .ok (options, rest) => runCommand files command { options with isTerminal } rest

/-! ## The program -/

/-- Runs the command line as a process does: on the given files, with the environment and
the outputs of the process. The result is the exit code. -/
def program (files : FileAccess IO) (args : List String) : IO UInt32 := do
  let output ← IO.getStdout
  let outcome ← run files args (← IO.getEnv versionVariable) (← output.isTty)
  output.putStr outcome.output
  (← IO.getStderr).putStr outcome.errorOutput
  return outcome.code.toUInt32

end CommandLine

/-- The files of a system that tells its directories, and the names in them, by two actions. -/
def FileAccess.ofSystem (isDirectory : String → IO Bool) (names : String → IO (List String)) :
    FileAccess IO where
  isDirectory
  names
  read path := do
    try return .ok (← IO.FS.readBinFile path)
    catch
      | .noFileOrDirectory .. => return .error .absent
      | error => return .error (.other (toString error))

end TolerantSyntax
