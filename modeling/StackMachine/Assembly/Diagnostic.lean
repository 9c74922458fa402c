import StackMachine.Assembly.Line
import StackMachine.Text.Numeral

/-!
# Diagnostics

What an assembler has to say about source files: errors, which reject a file, and warnings. Each
has a kind, which settles its severity unless it is given another, and a place.
-/

namespace StackMachine.Assembly

/-- The kinds of diagnostic; the last three are warnings. -/
inductive DiagnosticKind where
  | syntaxError
  | undefinedInstruction
  | unresolvedLabel
  | registerOutOfRange
  | addressSpaceExceeded
  | duplicateLabel
  | labelMoved
  | unknownDirective
  | invalidEncoding
  | versionMismatch
  | registerCountClamped
  | registersDirective
deriving DecidableEq, Repr

/-- How grave a diagnostic is. -/
inductive Severity where
  | error
  | warning
deriving DecidableEq, Repr

/-- A diagnostic. -/
structure Diagnostic where
  kind : DiagnosticKind
  severity : Severity
  path : String
  /-- The number of a line, from one on. -/
  line : Nat
  span : Span
  message : String
deriving DecidableEq, Repr

/-- The severity that a kind of diagnostic has by itself. -/
def DiagnosticKind.severity : DiagnosticKind → Severity
  | versionMismatch | registerCountClamped | registersDirective => .warning
  | _ => .error

/-- The name of a severity. -/
def Severity.name : Severity → String
  | error => "error"
  | warning => "warning"

namespace Diagnostic

/-- The diagnostic whose severity follows its kind. -/
def ofKind (kind : DiagnosticKind) (path : String) (line : Nat) (span : Span) (message : String) :
    Diagnostic :=
  ⟨kind, kind.severity, path, line, span, message⟩

/-- Whether a diagnostic is an error. -/
def isError (d : Diagnostic) : Bool :=
  d.severity == .error

/-- Whether a diagnostic is a warning. -/
def isWarning (d : Diagnostic) : Bool :=
  d.severity == .warning

/-- A diagnostic on one line, without an excerpt. -/
def toText (d : Diagnostic) : String :=
  d.path ++ ":" ++ Text.decimal d.line ++ ": " ++ d.severity.name ++ ": " ++ d.message

end Diagnostic

/-- Diagnostics in the order of their report. -/
abbrev Diagnostics := Array Diagnostic

namespace Diagnostics

/-- The number of errors. -/
def errorCount (ds : Diagnostics) : Nat :=
  ds.countP Diagnostic.isError

/-- The number of warnings. -/
def warningCount (ds : Diagnostics) : Nat :=
  ds.countP Diagnostic.isWarning

/-- Whether there is an error. -/
def hasErrors (ds : Diagnostics) : Bool :=
  ds.any Diagnostic.isError

/-- Whether there is a warning. -/
def hasWarnings (ds : Diagnostics) : Bool :=
  ds.any Diagnostic.isWarning

end Diagnostics

end StackMachine.Assembly
