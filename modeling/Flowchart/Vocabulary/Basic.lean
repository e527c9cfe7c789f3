/-!
# Closed vocabularies

Formats, directions, node and edge types, merge strategies and validation rules are each chosen by
name from a fixed list. A name outside its list is refused with `Unsupported`, which keeps the
rejected text; nothing falls back to a default.
-/

namespace Flowchart

/-- The lists of names that a caller chooses from. -/
inductive Vocabulary where
  | format
  | sourceFormat
  | direction
  | nodeType
  | edgeType
  | mergeStrategy
  | rule
  deriving DecidableEq, Repr

namespace Vocabulary

/-- What the vocabulary is called in a message. -/
def name : Vocabulary → String
  | format => "format"
  | sourceFormat => "source format"
  | direction => "direction"
  | nodeType => "node type"
  | edgeType => "edge type"
  | mergeStrategy => "merge strategy"
  | rule => "validation rule"

/-- The accepted names, as listed in a message. -/
def expected : Vocabulary → String
  | format => "mermaid, plantuml, d2, dot"
  | sourceFormat => "text, mermaid, plantuml, d2, dot"
  | direction => "TD, LR, BT, RL (top-down, left-right, bottom-up, right-left)"
  | nodeType => "start, end, process, decision, data, subprocess, unspecified"
  | edgeType => "plain, conditional, loop_back"
  | mergeStrategy => "union, intersection, ours, theirs"
  | rule =>
    "no-orphaned-nodes, no-cycles, require-start-end, max-complexity, unique-labels, " ++
      "valid-edges, no-self-loops, connected-graph, max-nodes-N, max-edges-N"

end Vocabulary

/-- A name that its vocabulary does not hold. -/
structure Unsupported where
  vocabulary : Vocabulary
  value : String
  deriving DecidableEq, Repr

/-- The text of the refusal. -/
def Unsupported.message (u : Unsupported) : String :=
  s!"unsupported {u.vocabulary.name} `{u.value}` (expected one of: {u.vocabulary.expected})"

end Flowchart
