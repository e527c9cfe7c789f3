import Flowchart.Command.Arguments
import Flowchart.Text.Numeral
import Flowchart.Vocabulary.Format

/-!
# Commands

What a command line asks for. Every command reads one or more diagrams; four of them write one.
-/

namespace Flowchart

/-- A diagram file and the format it is read in; without one the extension decides. -/
structure Input where
  path : String
  format : Option SourceFormat := none
  deriving DecidableEq, Repr

/-- Where a diagram is written, and how; without a format the extension of the file decides. -/
structure Output where
  path : Option String := none
  format : Option Format := none
  direction : Option Direction := none
  deriving DecidableEq, Repr

/-- What is done once: everything is read, then one text is printed or written. -/
inductive Task where
  | convert (input : Input) (output : Output)
  | stats (input : Input)
  | simplify (input : Input) (keepIsolated : Bool) (output : Output)
  | diff (old new : Input) (verbose : Bool)
  | extract (input : Input) (root : String) (depth : Option Nat) (output : Output)
  | paths (input : Input) (start goal : String)
  | order (input : Input)
  deriving DecidableEq, Repr

/-- Files to be checked one after the other, by the default rules if none is named. -/
structure Checks where
  inputs : List Input
  rules : List String
  /-- Style suggestions are reported too. -/
  style : Bool
  deriving DecidableEq, Repr

/-- What is to be done. -/
inductive Command where
  | task (task : Task)
  | validate (checks : Checks)
  deriving DecidableEq, Repr

/-- A command and the settings file that it runs under. -/
structure Invocation where
  command : Command
  settingsPath : Option String := none
  deriving DecidableEq, Repr

/-- The inputs of a task. -/
def Task.inputs : Task → List Input
  | .convert input _ | .stats input | .simplify input _ _ | .extract input _ _ _ | .paths input _ _
  | .order input => [input]
  | .diff old new _ => [old, new]

/-- The file that a task writes, if it writes one. -/
def Task.outputPath? : Task → Option String
  | .convert _ output | .simplify _ _ output | .extract _ _ _ output => output.path
  | _ => none

/-- The inputs of a command. -/
def Command.inputs : Command → List Input
  | .task t => t.inputs
  | .validate checks => checks.inputs

/-- The file that a command writes, if it writes one. -/
def Command.outputPath? : Command → Option String
  | .task t => t.outputPath?
  | .validate _ => none

namespace Command

/-! ## Options -/

/-- Options that stand before or behind the name of the command. -/
def generalOptions : List OptionSpec :=
  [{ name := "config", letter? := some 'c' }, { name := "log-level" }]

/-- The option of commands that read a diagram. -/
def inputOptions : List OptionSpec := [{ name := "from" }]

/-- The options of commands that write a diagram. -/
def outputOptions : List OptionSpec :=
  [{ name := "output", letter? := some 'o' }, { name := "to" }, { name := "direction" }]

/-- The options of each command. -/
def options? : String → Option (List OptionSpec)
  | "convert" => some (inputOptions ++ outputOptions)
  | "validate" =>
    some (inputOptions ++
      [{ name := "rule", repeatable := true }, { name := "lint", hasValue := false }])
  | "stats" | "paths" | "order" => some inputOptions
  | "simplify" =>
    some (inputOptions ++ outputOptions ++ [{ name := "keep-isolated", hasValue := false }])
  | "diff" =>
    some (inputOptions ++ [{ name := "verbose", letter? := some 'v', hasValue := false }])
  | "extract" => some (inputOptions ++ outputOptions ++ [{ name := "depth" }])
  | _ => none

/-! ## Reading -/

/-- Reads a number of 64 bits. -/
def readNumber (s : String) : Except Unit Nat :=
  match Text.number? s.toList with
  | some n => .ok n
  | none => .error ()

/-- Reads the options about the output. -/
def readOutput (a : Arguments) : Except UsageError Output := do
  let format ← a.read? "to" Format.read
  let direction ← a.read? "direction" Direction.read
  return { path := a.value? "output", format, direction }

/-- The complaint about a wrong number of positional arguments. -/
def wrongCount (expected : Nat) (positionals : List String) : UsageError :=
  match positionals.drop expected with
  | extra :: _ => .extraArgument extra
  | [] => .missingArgument

/-- Reads the arguments behind the name of a command. -/
def ofArguments (name : String) (a : Arguments) : Except UsageError Command := do
  let format ← a.read? "from" SourceFormat.read
  match name, a.positionals with
  | "convert", [path] => return .task (.convert ⟨path, format⟩ (← readOutput a))
  | "convert", other => .error (wrongCount 1 other)
  | "validate", [] => .error .missingArgument
  | "validate", files =>
    return .validate ⟨files.map fun path => ⟨path, format⟩, a.values "rule", a.has "lint"⟩
  | "stats", [path] => return .task (.stats ⟨path, format⟩)
  | "stats", other => .error (wrongCount 1 other)
  | "simplify", [path] =>
    return .task (.simplify ⟨path, format⟩ (a.has "keep-isolated") (← readOutput a))
  | "simplify", other => .error (wrongCount 1 other)
  | "diff", [old, new] => return .task (.diff ⟨old, format⟩ ⟨new, format⟩ (a.has "verbose"))
  | "diff", other => .error (wrongCount 2 other)
  | "extract", [path, root] =>
    let depth ← a.read? "depth" readNumber
    return .task (.extract ⟨path, format⟩ root depth (← readOutput a))
  | "extract", other => .error (wrongCount 2 other)
  | "paths", [path, start, goal] => return .task (.paths ⟨path, format⟩ start goal)
  | "paths", other => .error (wrongCount 3 other)
  | "order", [path] => return .task (.order ⟨path, format⟩)
  | "order", other => .error (wrongCount 1 other)
  | other, _ => .error (.unknownCommand other)

end Command

/-- Reads a command line. A settings file named behind the command comes before one named in front
of it. -/
def Invocation.ofArguments (arguments : List String) : Except UsageError Invocation := do
  let general ← Arguments.read Command.generalOptions true arguments
  match general.positionals with
  | [] => .error .missingCommand
  | name :: rest =>
    match Command.options? name with
    | none => .error (.unknownCommand name)
    | some options =>
      let a ← Arguments.read (Command.generalOptions ++ options) false rest
      let command ← Command.ofArguments name a
      return { command, settingsPath := (a.value? "config").or (general.value? "config") }

end Flowchart
