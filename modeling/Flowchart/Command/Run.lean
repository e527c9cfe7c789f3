import Flowchart.Change.Compare
import Flowchart.Command.Action
import Flowchart.Command.Basic
import Flowchart.Command.Host
import Flowchart.Graph.Paths
import Flowchart.Graph.Reachability
import Flowchart.Stored.Settings
import Flowchart.Validation.Rule
import Flowchart.Validation.Style

/-!
# Running commands

A task reads its files and computes before it prints a text or writes one file. Checks print the
report of each file before they go on to the next.
-/

namespace Flowchart

open Flowchart.Action (ofResult reading print printLine write)

/-! ## Formats -/

/-- The format that the extension of a path stands for. -/
def Path.format? (path : String) : Option Format :=
  (Path.extension? path).bind Format.ofExtension?

/-- The format an input is read in: the one asked for, or else that of the extension, or else flow
text. -/
def Input.sourceFormat (input : Input) : SourceFormat :=
  input.format.getD (((Path.format? input.path).map .structured).getD .text)

/-- The format an output is written in: the one asked for, or else that of the extension, or else
`fallback`. -/
def Output.targetFormat (output : Output) (fallback : Format) : Format :=
  (output.format.or (output.path.bind Path.format?)).getD fallback

/-! ## Settings -/

/-- Reads a settings file. -/
def Host.readSettings (host : Host) (path : String) : Except Failure Settings :=
  if host.files.hasEntry path then
    match host.files.read path with
    | .error error => .error (.file error)
    | .ok source =>
      match (host.toml.read? source).bind StoredValue.settings? with
      | some settings => .ok settings
      | none => .error (.badSettings path)
  else .error (.missingSettings path)

/-- The settings that a command runs under: those of the file that is named, or else of the first
file that there is, or else none that differ from the defaults. -/
def Invocation.settings (i : Invocation) (host : Host) : Except Failure Settings :=
  match i.settingsPath.or (host.settingsPaths.find? host.files.hasEntry) with
  | some path => host.readSettings path
  | none => .ok {}

/-! ## Tasks -/

/-- How a command that did not fail ended. -/
inductive Outcome where
  | success
  | checksFailed
  deriving DecidableEq, Repr

/-- Reads the diagram of an input. -/
def Input.diagram (input : Input) (settings : Settings) (fs : Files) : Except Failure Diagram := do
  let source ← (fs.read input.path).mapError .file
  (settings.parse input.sourceFormat source).mapError .parse

/-- Writes a diagram to its output, or prints it where no output is named. -/
def Output.deliver (output : Output) (settings : Settings) (d : Diagram) (fallback : Format) :
    Action Unit :=
  let text := settings.render d (output.targetFormat fallback) output.direction
  match output.path with
  | some path => write path text
  | none => print text

/-- A text without the blanks at its end. -/
def withoutTrailingBlanks (s : String) : String := String.ofList (Text.trimEnd s.toList)

/-- The lines about the paths between two nodes. -/
def pathLines (d : Diagram) (start goal : String) : List String :=
  match d.findPaths start goal with
  | [] => [s!"No path from {start} to {goal}"]
  | found => found.map fun path => " -> ".intercalate path

/-- Refuses an id that is no node. -/
def requireNode (d : Diagram) (id : String) : Except Failure Unit :=
  if d.contains id then .ok () else .error (.diagram (.unknownNode id))

/-- Does a task under some settings. -/
def Task.run (settings : Settings) : Task → Action Outcome
  | .convert input output => do
    let d ← reading (input.diagram settings)
    output.deliver settings (settings.transform d) .mermaid
    return .success
  | .stats input => do
    let d ← reading (input.diagram settings)
    print d.statistics.text
    return .success
  | .simplify input keepIsolated output => do
    let d ← reading (input.diagram settings)
    output.deliver settings (d.simplify !keepIsolated) input.sourceFormat.target
    return .success
  | .diff old new verbose => do
    let old ← reading (old.diagram settings)
    let new ← reading (new.diagram settings)
    let changes := Changes.between old new
    printLine (if verbose then withoutTrailingBlanks changes.report else changes.summary)
    return .success
  | .extract input root depth output => do
    let d ← reading (input.diagram settings)
    let part ← ofResult ((d.extract root depth).mapError .diagram)
    output.deliver settings part input.sourceFormat.target
    return .success
  | .paths input start goal => do
    let d ← reading (input.diagram settings)
    ofResult (requireNode d start)
    ofResult (requireNode d goal)
    (pathLines d start goal).forM printLine
    return .success
  | .order input => do
    let d ← reading (input.diagram settings)
    let ids ← ofResult (d.topologicalSort.mapError .cycle)
    ids.forM printLine
    return .success

/-! ## Checks -/

/-- The first line about a file. -/
def checkSummary (path : String) (accepted : Bool) (issues : List Issue) : String :=
  let warnings := Issue.count .warning issues
  if accepted then s!"{path}: valid ({warnings} warning(s))"
  else s!"{path}: invalid ({Issue.count .error issues} error(s), {warnings} warning(s))"

/-- Checks one file and prints its report. Returns whether the file has no error. -/
def Input.check (input : Input) (settings : Settings) (validator : Validator) (style : Bool) :
    Action Bool := do
  let d ← reading (input.diagram settings)
  let issues := validator.issues d
  let suggestions := if style then Style.suggestions d else []
  printLine (checkSummary input.path (validator.accepts d) issues)
  (issues ++ suggestions).forM fun issue => printLine ("  " ++ issue.text)
  return validator.accepts d

/-- The validator of the rules to check by. -/
def Checks.validator (checks : Checks) : Except Unsupported Validator :=
  if checks.rules.isEmpty then .ok .standard else Validator.ofNames checks.rules

/-- Checks the next file. The outcome so far stays unless the file has an error. -/
def Checks.next (checks : Checks) (settings : Settings) (validator : Validator)
    (outcome : Outcome) (input : Input) : Action Outcome := do
  let accepted ← input.check settings validator checks.style
  return if accepted then outcome else .checksFailed

/-- Checks files under some settings, up to the first that cannot be read. -/
def Checks.run (settings : Settings) (checks : Checks) : Action Outcome := do
  let validator ← ofResult (checks.validator.mapError .unsupported)
  checks.inputs.foldlM (checks.next settings validator) .success

/-! ## Commands -/

/-- Does what a command asks for under some settings. -/
def Command.run (settings : Settings) : Command → Action Outcome
  | .task t => t.run settings
  | .validate checks => checks.run settings

/-- The result of a command: its progress at the end, and how it ended. -/
structure RunResult extends Progress where
  ending : Except Failure Outcome

/-- Does what a command line asks for. -/
def Invocation.action (i : Invocation) (host : Host) : Action Outcome := do
  let settings ← reading fun files => i.settings { host with files }
  i.command.run settings

/-- Runs a command on a host. -/
def Invocation.run (i : Invocation) (host : Host) : RunResult :=
  let result := (i.action host).perform { files := host.files }
  { result.2 with ending := result.1 }

end Flowchart
