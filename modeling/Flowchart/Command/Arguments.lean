/-!
# Command-line arguments

Splits the arguments of a command into options and positional arguments.

* An option is `--name` or, if it has a letter, `-n`. Its value is the next argument, or follows an
  equals sign, or, for a letter, follows directly.
* Letters of options without a value may share one dash.
* Behind `--` everything is positional, and so is a single dash.

An argument that starts with a dash is never the value of the option before it.
-/

namespace Flowchart

/-- An option that a command knows. -/
structure OptionSpec where
  name : String
  letter? : Option Char := none
  hasValue : Bool := true
  repeatable : Bool := false
  deriving DecidableEq, Repr

/-- Why a command line is refused. -/
inductive UsageError where
  | missingCommand
  | unknownCommand (name : String)
  | unknownOption (argument : String)
  | missingValue (option : String)
  | unexpectedValue (option : String)
  | repeatedOption (option : String)
  | badValue (option value : String)
  | missingArgument
  | extraArgument (argument : String)
  deriving DecidableEq, Repr

/-- What is wrong with a command line. -/
def UsageError.message : UsageError → String
  | missingCommand => "missing command"
  | unknownCommand name => s!"unknown command `{name}`"
  | unknownOption argument => s!"unknown option `{argument}`"
  | missingValue option => s!"option `{option}` needs a value"
  | unexpectedValue option => s!"option `{option}` takes no value"
  | repeatedOption option => s!"option `{option}` is given more than once"
  | badValue option value => s!"bad value `{value}` for option `{option}`"
  | missingArgument => "missing argument"
  | extraArgument argument => s!"unexpected argument `{argument}`"

/-- Options with their values, in order, and positional arguments. An option without a value has the
empty one. -/
structure Arguments where
  options : List (String × String) := []
  positionals : List String := []
  deriving DecidableEq, Repr

namespace Arguments

/-- The values of an option. -/
def values (a : Arguments) (name : String) : List String :=
  (a.options.filter fun o => o.1 = name).map Prod.snd

/-- The value of an option that is given once. -/
def value? (a : Arguments) (name : String) : Option String := (a.values name).head?

/-- An option is given. -/
def has (a : Arguments) (name : String) : Bool := !(a.values name).isEmpty

/-! ## Scanning -/

/-- The argument starts an option or ends the options. -/
def isOption (argument : String) : Bool :=
  match argument.toList with
  | '-' :: _ :: _ => true
  | _ => false

/-- What an argument says about options: options that are complete, and an option whose value is
still to come. -/
structure Scanned where
  complete : List (String × String) := []
  pending : Option String := none
  deriving DecidableEq, Repr

/-- Reads what stands behind two dashes. -/
def scanName (specs : List OptionSpec) (body : List Char) : Except UsageError Scanned :=
  let name := String.ofList (body.takeWhile (· ≠ '='))
  match specs.find? (fun spec => spec.name = name), body.dropWhile (· ≠ '=') with
  | none, _ => .error (.unknownOption ("--" ++ name))
  | some spec, '=' :: value =>
    if spec.hasValue then .ok { complete := [(name, String.ofList value)] }
    else .error (.unexpectedValue name)
  | some spec, _ =>
    if spec.hasValue then .ok { pending := some name } else .ok { complete := [(name, "")] }

/-- Reads what stands behind one dash. -/
def scanLetters (specs : List OptionSpec) : List Char → Except UsageError Scanned
  | [] => .ok {}
  | letter :: rest =>
    match specs.find? fun spec => spec.letter? = some letter with
    | none => .error (.unknownOption (String.ofList ['-', letter]))
    | some spec =>
      if spec.hasValue then
        match rest with
        | [] => .ok { pending := some spec.name }
        | '=' :: value | value => .ok { complete := [(spec.name, String.ofList value)] }
      else
        match scanLetters specs rest with
        | .ok scanned => .ok { scanned with complete := (spec.name, "") :: scanned.complete }
        | .error error => .error error

/-- Reads an argument that is an option. -/
def scanOption (specs : List OptionSpec) (argument : String) : Except UsageError Scanned :=
  match argument.toList with
  | '-' :: '-' :: body => scanName specs body
  | '-' :: letters => scanLetters specs letters
  | _ => .ok {}

/-- Splits arguments. With `leading` the first positional argument ends the options, and everything
from there on is positional. -/
def split (specs : List OptionSpec) (leading : Bool) : List String → Except UsageError Arguments
  | [] => .ok {}
  | argument :: rest =>
    if argument = "--" then
      if leading then .error (.extraArgument argument) else .ok { positionals := rest }
    else if isOption argument then
      match scanOption specs argument with
      | .error error => .error error
      | .ok ⟨complete, none⟩ =>
        match split specs leading rest with
        | .ok a => .ok { a with options := complete ++ a.options }
        | .error error => .error error
      | .ok ⟨complete, some name⟩ =>
        match rest with
        | [] => .error (.missingValue name)
        | value :: rest =>
          if isOption value then .error (.missingValue name)
          else
            match split specs leading rest with
            | .ok a => .ok { a with options := complete ++ (name, value) :: a.options }
            | .error error => .error error
    else if leading then .ok { positionals := argument :: rest }
    else
      match split specs leading rest with
      | .ok a => .ok { a with positionals := argument :: a.positionals }
      | .error error => .error error

/-- The arguments, unless an option that is not repeatable is given twice. -/
def checkRepeated (specs : List OptionSpec) (a : Arguments) : Except UsageError Arguments :=
  match specs.find? fun spec => !spec.repeatable && 1 < (a.values spec.name).length with
  | some spec => .error (.repeatedOption spec.name)
  | none => .ok a

/-- Reads arguments and checks how often options are given. -/
def read (specs : List OptionSpec) (leading : Bool) (arguments : List String) :
    Except UsageError Arguments := do
  checkRepeated specs (← split specs leading arguments)

/-- The value of an option, read by a function. -/
def read? {α ε : Type} (a : Arguments) (name : String) (read : String → Except ε α) :
    Except UsageError (Option α) :=
  match a.value? name with
  | none => .ok none
  | some text =>
    match read text with
    | .ok value => .ok (some value)
    | .error _ => .error (.badValue name text)

end Arguments

end Flowchart
