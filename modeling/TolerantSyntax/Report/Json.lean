import TolerantSyntax.Diagnostic.Basic
import TolerantSyntax.Text.Lines
import TolerantSyntax.Text.Quoted

/-!
# Reports for tools

A JSON array with an object for every diagnostic. It is written piece by piece, so a
report knows whether there is an object before the next one.
-/

namespace TolerantSyntax

namespace JsonText

def isControl (c : Char) : Bool := c.toNat < 0x20 || (0x7F ≤ c.toNat && c.toNat < 0xA0)

def escape (c : Char) : List Char :=
  match c with
  | '"' => ['\\', '"']
  | '\\' => ['\\', '\\']
  | '\n' => ['\\', 'n']
  | '\r' => ['\\', 'r']
  | '\t' => ['\\', 't']
  | c => if isControl c then '\\' :: 'u' :: (hex 4 c.toNat).toList else [c]

def quote (text : String) : String :=
  "\"" ++ String.ofList (text.toList.flatMap escape) ++ "\""

end JsonText

structure JsonReport where
  source : String
  lines : LineTable
  isEmpty : Bool

namespace JsonReport

def ofSource (source : String) : JsonReport := ⟨source, .ofText source, true⟩

def field (key value : String) : String := "    \"" ++ key ++ "\": " ++ value

def array (items : List String) : String := "[" ++ String.intercalate "," items ++ "]"

def fields (report : JsonReport) (diagnostic : Diagnostic) : List String :=
  let position := report.lines.position report.source diagnostic.span.start
  [field "id" (JsonText.quote diagnostic.code.id),
   field "code" (JsonText.quote diagnostic.code.number),
   field "severity" (JsonText.quote diagnostic.severity.name),
   field "message" (JsonText.quote diagnostic.message),
   field "args" (array (diagnostic.args.map JsonText.quote)),
   field "start" (toString diagnostic.span.start),
   field "end" (toString diagnostic.span.stop),
   field "line" (toString position.line),
   field "column" (toString position.column)]

def object (report : JsonReport) (diagnostic : Diagnostic) : String :=
  "  \x7b\n" ++ String.intercalate ",\n" (report.fields diagnostic) ++ "\n  \x7d"

def opening : String := "[\n"

def closing (report : JsonReport) : String := if report.isEmpty then "]\n" else "\n]\n"

/-- The next object with the comma in front of it. -/
def next (report : JsonReport) (diagnostic : Diagnostic) : String :=
  (if report.isEmpty then "" else ",\n") ++ report.object diagnostic

def add (report : JsonReport) (diagnostic : Diagnostic) : String × JsonReport :=
  (report.next diagnostic, { report with isEmpty := false })

def addAll (report : JsonReport) : List Diagnostic → String × JsonReport
  | [] => ("", report)
  | diagnostic :: rest =>
      let (text, report) := report.add diagnostic
      let (more, report) := report.addAll rest
      (text ++ more, report)

def render (report : JsonReport) (diagnostics : List Diagnostic) : String :=
  let (text, report) := report.addAll diagnostics
  opening ++ text ++ report.closing

end JsonReport
end TolerantSyntax
