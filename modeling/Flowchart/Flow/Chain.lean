import Flowchart.Source.Span

/-!
# Chains of steps

What flow text says, as a tree. A chain is a first item and further items behind separators. An item
is a step, parallel lanes or a loop; lanes and loop bodies are chains again. **A chain is never
empty**, and neither is a parallel group.
-/

namespace Flowchart.Flow

/-- A branch label with its place, brackets included. -/
abbrev BranchLabel := Spanned String

mutual

/-- A step, parallel lanes, or a loop whose way back may be labelled. -/
inductive Item where
  | step (label : String)
  | parallel (lanes : Lanes)
  | loop (label : Option String) (body : Chain)
  deriving DecidableEq, Repr

/-- A first item and what follows it. -/
inductive Chain where
  | start (label : Option BranchLabel) (item : Item) (rest : Links)
  deriving DecidableEq, Repr

/-- Further items of a chain. A merging separator ends the branches before it. -/
inductive Links where
  | nil
  | next (merges : Bool) (label : Option BranchLabel) (item : Item) (rest : Links)
  deriving DecidableEq, Repr

/-- The chains of a parallel group. -/
inductive Lanes where
  | last (lane : Chain)
  | cons (lane : Chain) (rest : Lanes)
  deriving DecidableEq, Repr

end

namespace Item

/-- The item is a plain step. -/
def isStep : Item → Bool
  | step _ => true
  | _ => false

end Item

namespace Links

/-- All items are plain steps without branch labels. -/
def isPlain : Links → Bool
  | nil => true
  | next _ label item rest => label.isNone && item.isStep && rest.isPlain

end Links

namespace Chain

/-- The chain has two plain steps at least and nothing else, and no branch labels. -/
def isLinear : Chain → Bool
  | start label item rest =>
    label.isNone && item.isStep && rest.isPlain && rest ≠ .nil

end Chain

end Flowchart.Flow
