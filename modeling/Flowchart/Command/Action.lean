import Flowchart.Command.Failure

/-!
# Actions

A command acts step by step: it reads files, prints and writes. An action may fail at any step, and
**what was printed and written before it failed stays**.
-/

namespace Flowchart

/-- What a command has printed so far, and the files as they are now. -/
structure Progress where
  printed : String := ""
  files : Files

/-- A part of what a command does. -/
abbrev Action (α : Type) := ExceptT Failure (StateM Progress) α

namespace Action

variable {α : Type}

/-- Carries out an action: how it ends, and the progress that it leaves. -/
def perform (a : Action α) (p : Progress) : Except Failure α × Progress := a.run.run p

/-- Goes on with a result, or fails with its failure. -/
def ofResult (result : Except Failure α) : Action α := ofExcept result

/-- Computes something from the files. -/
def reading (f : Files → Except Failure α) : Action α := do
  ofResult (f (← get).files)

/-- Prints a text. -/
def print (text : String) : Action Unit := modify fun p => { p with printed := p.printed ++ text }

/-- Prints a text in a line of its own. -/
def printLine (line : String) : Action Unit := print (line ++ "\n")

/-- Writes a file. -/
def write (path text : String) : Action Unit := do
  let files ← reading fun fs => (fs.write path text).mapError .file
  modify fun p => { p with files := files }

end Action

end Flowchart
