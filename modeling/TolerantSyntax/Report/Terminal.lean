import TolerantSyntax.Diagnostic.Basic
import TolerantSyntax.Text.Lines

/-!
# Reports for terminals

A line for every diagnostic: where it is, what it is, and its message.
-/

namespace TolerantSyntax

inductive ColorMode where
  | auto | always | never
deriving DecidableEq, Repr, Inhabited

namespace ColorMode

def ofText? : String → Option ColorMode
  | "auto" => some .auto
  | "always" => some .always
  | "never" => some .never
  | _ => none

def useColors (mode : ColorMode) (isTerminal : Bool) : Bool :=
  match mode with
  | auto => isTerminal
  | always => true
  | never => false

end ColorMode

inductive Style where
  | error | warning | bold
deriving DecidableEq, Repr

namespace Style

def ofSeverity : Severity → Style
  | .error => error
  | .warning => warning

def start : Style → String
  | error => "\x1b[1;31m"
  | warning => "\x1b[1;33m"
  | bold => "\x1b[1m"

def apply (style : Style) (colors : Bool) (text : String) : String :=
  if colors then style.start ++ text ++ "\x1b[0m" else text

end Style

structure TerminalReport where
  path : String
  source : String
  lines : LineTable
  colors : Bool

namespace TerminalReport

def ofSource (path source : String) (colors : Bool) : TerminalReport :=
  ⟨path, source, .ofText source, colors⟩

def place (report : TerminalReport) (diagnostic : Diagnostic) : String :=
  let position := report.lines.position report.source diagnostic.span.start
  report.path ++ "(" ++ toString position.line ++ "," ++ toString position.column ++ "): "

def line (report : TerminalReport) (diagnostic : Diagnostic) : String :=
  report.place diagnostic
    ++ (Style.ofSeverity diagnostic.severity).apply report.colors diagnostic.label
    ++ ": " ++ diagnostic.message ++ "\n"

def render (report : TerminalReport) (diagnostics : List Diagnostic) : String :=
  String.join (diagnostics.map report.line)

def counted (count : Nat) (noun : String) : String :=
  toString count ++ " " ++ noun ++ (if count = 1 then "" else "s")

def summary (colors : Bool) (errors warnings : Nat) : String :=
  if errors = 0 ∧ warnings = 0 then ""
  else
    Style.bold.apply colors (counted errors "error" ++ ", " ++ counted warnings "warning") ++ "\n"

end TerminalReport
end TolerantSyntax
