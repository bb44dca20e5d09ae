import TolerantSyntax.Report.Json
import TolerantSyntax.Report.Terminal
import TolerantSyntax.Version

/-!
# Options

The options of a command, and what can keep a command from its work. Errors in a source
text are none of these: they are diagnostics.
-/

namespace TolerantSyntax

inductive CommandError where
  | notFound (path : String)
  | invalidUtf8 (path : String)
  | unreadable (path reason : String)
  | unknownVersion (text : String)
  | unknownFormat (text : String)
  | unknownColorMode (text : String)
  | unknownOption (text : String)
  | unknownCode (text : String)
  | missingArgument (what : String)
deriving DecidableEq, Repr

def CommandError.message : CommandError → String
  | notFound path => s!"cannot find file '{path}'"
  | invalidUtf8 path => s!"'{path}' contains invalid UTF-8 data"
  | unreadable path reason => s!"error reading '{path}': {reason}"
  | unknownVersion text => LanguageVersion.unknownMessage text
  | unknownFormat text => s!"unknown output format '{text}' (expected terminal or json)"
  | unknownColorMode text => s!"unknown color mode '{text}' (expected auto, always or never)"
  | unknownOption text => s!"unknown option '{text}'"
  | unknownCode text => s!"unknown error code '{text}'"
  | missingArgument what => s!"missing {what}"

inductive ReportFormat where
  | terminal | json
deriving DecidableEq, Repr, Inhabited

def ReportFormat.ofText? : String → Option ReportFormat
  | "terminal" | "text" => some .terminal
  | "json" => some .json
  | _ => none

structure CommandOptions where
  version : LanguageVersion
  format : ReportFormat
  color : ColorMode
  isTerminal : Bool
deriving DecidableEq, Repr

namespace CommandOptions

def default : CommandOptions := ⟨.latest, .terminal, .auto, false⟩

def behind? (beginning text : String) : Option String :=
  if text.startsWith beginning then some (String.ofList (text.toList.drop beginning.length))
  else none

structure Reading where
  options : CommandOptions
  versionText? : Option String
  rest : List String

def readArg (reading : Reading) (arg : String) : Except CommandError Reading :=
  match behind? "--langversion=" arg, behind? "--format=" arg, behind? "--color=" arg with
  | some value, _, _ => .ok { reading with versionText? := some value }
  | _, some value, _ =>
      match ReportFormat.ofText? value with
      | some format => .ok { reading with options := { reading.options with format } }
      | none => .error (.unknownFormat value)
  | _, _, some value =>
      match ColorMode.ofText? value with
      | some color => .ok { reading with options := { reading.options with color } }
      | none => .error (.unknownColorMode value)
  | _, _, _ =>
      if arg.startsWith "--" then .error (.unknownOption arg)
      else .ok { reading with rest := reading.rest ++ [arg] }

def versionOf (text : String) : Except CommandError LanguageVersion :=
  match LanguageVersion.ofText? text with
  | some version => .ok version
  | none => .error (.unknownVersion text)

/-- Options and the other arguments. The version of the environment counts only when no
argument names one. -/
def ofArgs (args : List String) (environment? : Option String) :
    Except CommandError (CommandOptions × List String) := do
  let reading ← args.foldlM readArg ⟨default, none, []⟩
  match reading.versionText? <|> environment? with
  | none => return (reading.options, reading.rest)
  | some text => return ({ reading.options with version := ← versionOf text }, reading.rest)

def colors (options : CommandOptions) : Bool := options.color.useColors options.isTerminal

def report (options : CommandOptions) (path source : String) (diagnostics : List Diagnostic) :
    String :=
  match options.format with
  | .terminal => (TerminalReport.ofSource path source options.colors).render diagnostics
  | .json => (JsonReport.ofSource source).render diagnostics

end CommandOptions
end TolerantSyntax
