import Flowchart.Command.Files
import Flowchart.Diagram.Basic
import Flowchart.Graph.Order
import Flowchart.Source.Diagnostic
import Flowchart.Vocabulary.Basic

/-!
# Failures of commands

Why a command can fail, and the reports that it prints then: one for each diagnostic of a source
that cannot be read, and one for any other failure.
-/

namespace Flowchart

/-- Why a command failed. -/
inductive Failure where
  | file (error : FileError)
  | missingSettings (path : String)
  | badSettings (path : String)
  | parse (error : ParseError)
  | diagram (error : DiagramError)
  | cycle (error : CycleError)
  | unsupported (error : Unsupported)
  deriving DecidableEq, Repr

/-- A remark of a report on a place in the source. -/
structure ReportLabel where
  offset : Nat
  length : Nat
  message : String
  primary : Bool
  deriving DecidableEq, Repr

/-- One problem as it is shown to the user. A report on a source shows the source too. -/
structure Report where
  message : String
  code : Option String := none
  isWarning : Bool := false
  help : Option String := none
  hasSource : Bool := false
  labels : List ReportLabel := []
  deriving DecidableEq, Repr

/-- The report of a diagnostic. -/
def Diagnostic.report (d : Diagnostic) : Report where
  message := d.message
  code := d.code.map ErrorCode.name
  isWarning := d.severity = .warning
  help := d.help
  hasSource := true
  labels := d.labels.map fun l => ⟨l.span.start, l.span.size, l.message, l.role = .primary⟩

/-- The reports of a source that cannot be read. -/
def ParseError.reports (e : ParseError) : List Report := e.diagnostics.map Diagnostic.report

namespace Failure

/-- The text of a failure. -/
def message : Failure → String
  | file error => "I/O error: " ++ error.message
  | missingSettings path => "I/O error: Missing configuration file: " ++ path
  | badSettings path => "I/O error: Failed to parse TOML configuration " ++ path
  | parse error => error.text
  | diagram error => "Invalid diagram: " ++ error.message
  | cycle error => error.message
  | unsupported error => error.message

/-- The code of the kind of failure. -/
def code : Failure → String
  | file _ | missingSettings _ | badSettings _ => "junction::io"
  | parse _ => "junction::parse"
  | diagram _ => "junction::validation"
  | cycle _ => "junction::cycle"
  | unsupported _ => "junction::option"

/-- What the user can do about it. -/
def help? : Failure → Option String
  | cycle _ => some "run `junction validate --rule no-cycles` to list every cycle"
  | unsupported _ => some "see `junction --help` for accepted values"
  | _ => none

/-- The reports of a failure. -/
def reports : Failure → List Report
  | parse error => error.reports
  | failure => [{ message := failure.message, code := some failure.code, help := failure.help? }]

end Failure

end Flowchart
