import TolerantSyntax.Text.Span
import TolerantSyntax.Diagnostic.Code

/-!
# Diagnostics

A diagnostic is a code at a span with arguments for the placeholders of its message.
-/

namespace TolerantSyntax

inductive Severity where
  | error
  | warning
deriving DecidableEq, Repr, Inhabited

def Severity.name : Severity → String
  | .error => "error"
  | .warning => "warning"

structure Diagnostic where
  code : DiagnosticCode
  severity : Severity
  span : Span
  args : List String
deriving DecidableEq, Repr, Inhabited

namespace Diagnostic

def error (code : DiagnosticCode) (span : Span) (args : List String) : Diagnostic :=
  ⟨code, .error, span, args⟩

def isError (diagnostic : Diagnostic) : Bool := diagnostic.severity == .error

def unsigned : List Char → List Char
  | '+' :: digits => digits
  | digits => digits

def index? (numeral : List Char) : Option Nat :=
  let digits := unsigned numeral
  if digits ≠ [] ∧ digits.all (·.isDigit) then some (Nat.ofDigitChars 10 digits 0) else none

/-- The argument for a placeholder that starts behind an opening brace, and what
follows its closing brace. -/
def placeholder? (args : List String) (rest : List Char) : Option (String × List Char) :=
  match rest.dropWhile (· ≠ '\x7d') with
  | [] => none
  | _ :: behind =>
      match index? (rest.takeWhile (· ≠ '\x7d')) with
      | none => none
      | some index => args[index]?.map (·, behind)

/-- Fills the placeholders of a template from left to right. Text that comes from an
argument is not looked at again, and a placeholder without an argument stays. -/
def fill (args : List String) : Nat → List Char → List Char
  | 0, template => template
  | _, [] => []
  | fuel + 1, c :: rest =>
      if c = '\x7b' then
        match placeholder? args rest with
        | some (arg, behind) => arg.toList ++ fill args fuel behind
        | none => c :: fill args fuel rest
      else c :: fill args fuel rest

def message (diagnostic : Diagnostic) : String :=
  let template := diagnostic.code.template.toList
  String.ofList (fill diagnostic.args template.length template)

def label (diagnostic : Diagnostic) : String :=
  diagnostic.severity.name ++ " " ++ diagnostic.code.number

def render (diagnostic : Diagnostic) : String :=
  diagnostic.label ++ ": " ++ diagnostic.message

def featureNotAvailable (span : Span) (feature required : String) : Diagnostic :=
  .error .featureNotAvailableInVersion span [feature, required]

def expected (span : Span) (wanted found : String) : Diagnostic :=
  .error .syntaxError span [wanted, found]

def invalidMember (span : Span) (text : String) : Diagnostic :=
  .error .invalidMemberDecl span [text]

def unexpectedToken (span : Span) (text : String) : Diagnostic :=
  .error .unexpectedToken span [text]

end Diagnostic

/-! ## Bags -/

/-- Diagnostics in the order in which they were found. -/
structure DiagnosticBag where
  diagnostics : List Diagnostic
deriving DecidableEq, Repr, Inhabited

namespace DiagnosticBag

def empty : DiagnosticBag := ⟨[]⟩

def push (bag : DiagnosticBag) (diagnostic : Diagnostic) : DiagnosticBag :=
  ⟨bag.diagnostics ++ [diagnostic]⟩

def extend (bag : DiagnosticBag) (more : List Diagnostic) : DiagnosticBag :=
  ⟨bag.diagnostics ++ more⟩

def truncate (bag : DiagnosticBag) (n : Nat) : DiagnosticBag := ⟨bag.diagnostics.take n⟩

def size (bag : DiagnosticBag) : Nat := bag.diagnostics.length

def isEmpty (bag : DiagnosticBag) : Bool := bag.diagnostics.isEmpty

def hasErrors (bag : DiagnosticBag) : Bool := bag.diagnostics.any (·.isError)

def countOf (bag : DiagnosticBag) (severity : Severity) : Nat :=
  (bag.diagnostics.filter (·.severity == severity)).length

def sorted (bag : DiagnosticBag) : List Diagnostic :=
  bag.diagnostics.mergeSort fun left right => left.span.start ≤ right.span.start

end DiagnosticBag
end TolerantSyntax
