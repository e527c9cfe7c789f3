import Flowchart.Diagram.Basic

/-!
# Findings

A finding is one thing that a rule or the style check has to say about a diagram. It records the
cause; its severity, its text and the node that it is about are functions of the cause. A diagram is
valid when none of its findings is an error.
-/

namespace Flowchart

/-- How serious a finding is. -/
inductive Severity where
  | error
  | warning
  | info
  deriving DecidableEq, Repr

namespace Severity

/-- Every severity, the most serious first. -/
def all : List Severity := [error, warning, info]

/-- The name of a severity. -/
def name : Severity → String
  | error => "error"
  | warning => "warning"
  | info => "info"

/-- The severity of this exact name. -/
def ofName? (s : String) : Option Severity := all.find? fun t => t.name == s

end Severity

/-- Which end of an edge is meant. -/
inductive EdgeEnd where
  | source
  | target
  deriving DecidableEq, Repr

/-- The name of an end. -/
def EdgeEnd.name : EdgeEnd → String
  | source => "source"
  | target => "target"

/-- What a check can find. -/
inductive Finding where
  | orphan (id label : String)
  | cycle (ids : List String)
  | missingStart
  | missingEnd
  | manyNodes (count : Nat)
  | highBranching (count : Nat)
  | duplicateLabel (label : String) (count : Nat)
  | missingEndpoint (role : EdgeEnd) (id : String)
  | selfLoop (id : String)
  | disconnected (ids : List String)
  | tooManyNodes (count limit : Nat)
  | tooManyEdges (count limit : Nat)
  | longLabel (id label : String)
  | genericIds (count : Nat)
  | missingTitle
  deriving DecidableEq, Repr

namespace Finding

/-- How serious each finding is. -/
def severity : Finding → Severity
  | cycle .. | missingStart | missingEnd | missingEndpoint .. | tooManyNodes .. | tooManyEdges .. =>
    .error
  | orphan .. | manyNodes .. | highBranching .. | selfLoop .. | disconnected .. => .warning
  | duplicateLabel .. | longLabel .. | genericIds .. | missingTitle => .info

/-- How many disconnected ids a message lists. -/
def listedDisconnected : Nat := 5

/-- How many characters of a long label a message shows. -/
def previewLength : Nat := 40

/-- The text of a finding. -/
def message : Finding → String
  | orphan id label => s!"orphaned node `{id}` ({label})"
  | cycle ids => "cycle detected: " ++ " -> ".intercalate ids
  | missingStart => "missing START node"
  | missingEnd => "missing END node"
  | manyNodes count => s!"high node count: {count} (consider splitting)"
  | highBranching count => s!"high branching factor: {count} edges from one node"
  | duplicateLabel label count => "duplicate label '" ++ label ++ s!"' used {count} times"
  | missingEndpoint role id => s!"edge references non-existent {role.name} node `{id}`"
  | selfLoop id => s!"self-loop on node `{id}`"
  | disconnected ids =>
    "graph is not fully connected; disconnected nodes: " ++
      ", ".intercalate (ids.take listedDisconnected)
  | tooManyNodes count limit => s!"too many nodes: {count} > {limit}"
  | tooManyEdges count limit => s!"too many edges: {count} > {limit}"
  | longLabel id label =>
    s!"long label in `{id}`: '" ++ String.ofList (label.toList.take previewLength) ++ "...'"
  | genericIds count => s!"many generic node ids (n1, n2, ...): {count} nodes"
  | missingTitle => "consider adding a title to the diagram"

/-- The node that a finding is about, where it is about one. -/
def location? : Finding → Option String
  | orphan id _ | selfLoop id | longLabel id _ => some id
  | _ => none

end Finding

/-- A finding under the name of the rule that reports it. -/
structure Issue where
  rule : String
  finding : Finding
  deriving DecidableEq, Repr

namespace Issue

/-- The severity of the finding. -/
def severity (i : Issue) : Severity := i.finding.severity

/-- The line that reports an issue. -/
def text (i : Issue) : String :=
  s!"{i.severity.name}: {i.finding.message} [{i.rule}]"

/-- How many issues have this severity. -/
def count (severity : Severity) (issues : List Issue) : Nat :=
  issues.countP fun i => i.severity = severity

end Issue

end Flowchart
