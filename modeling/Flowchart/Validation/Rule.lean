import Flowchart.Graph.Paths
import Flowchart.Graph.Statistics
import Flowchart.Text.Numeral
import Flowchart.Validation.Finding

/-!
# Validation rules

A rule looks at a diagram and reports its findings. Rules are chosen by name; two of them carry a
limit in their name. A validator is a list of rules and reports the issues of each in turn.
-/

namespace Flowchart

/-- A check of a diagram. -/
inductive Rule where
  | noOrphanedNodes
  | noCycles
  | requireStartEnd
  | maxComplexity
  | uniqueLabels
  | validEdges
  | noSelfLoops
  | connectedGraph
  | maxNodes (limit : Nat)
  | maxEdges (limit : Nat)
  deriving DecidableEq, Repr

namespace Rule

/-- The rules that run when none is named. -/
def defaults : List Rule :=
  [noOrphanedNodes, noCycles, requireStartEnd, maxComplexity, uniqueLabels, validEdges, noSelfLoops,
    connectedGraph]

/-- The name of a rule. -/
def name : Rule → String
  | noOrphanedNodes => "no-orphaned-nodes"
  | noCycles => "no-cycles"
  | requireStartEnd => "require-start-end"
  | maxComplexity => "max-complexity"
  | uniqueLabels => "unique-labels"
  | validEdges => "valid-edges"
  | noSelfLoops => "no-self-loops"
  | connectedGraph => "connected-graph"
  | maxNodes limit => s!"max-nodes-{limit}"
  | maxEdges limit => s!"max-edges-{limit}"

/-- The limit of a rule that has one. -/
def limit? : Rule → Option Nat
  | maxNodes limit | maxEdges limit => some limit
  | _ => none

/-! ## Reading a rule -/

/-- Reads a rule by its exact name; a limit is a number of 64 bits. -/
def read (s : String) : Except Unsupported Rule :=
  let found :=
    match "max-nodes-".toList.isPrefixOf? s.toList with
    | some digits => (Text.number? digits).map maxNodes
    | none =>
      match "max-edges-".toList.isPrefixOf? s.toList with
      | some digits => (Text.number? digits).map maxEdges
      | none => defaults.find? fun rule => rule.name == s
  match found with
  | some rule => .ok rule
  | none => .error ⟨.rule, s⟩

/-! ## The checks -/

/-- The node count above which a diagram is complex. -/
def complexNodeCount : Nat := 50

/-- The number of edges out of one node above which a diagram is complex. -/
def complexBranching : Nat := 10

/-- Nodes other than starts and ends that no edge touches, connected or not. -/
def orphans (d : Diagram) : List Node :=
  d.nodes.filter fun n =>
    n.type != .start && n.type != .finish &&
      !d.edges.any fun e => e.source == n.id || e.target == n.id

/-- The labels that occur more than once, in the order of their first use, with their counts. The
empty label does not count. -/
def repeatedLabels (d : Diagram) : List (String × Nat) :=
  let labels := (d.nodes.map Node.label).filter fun l => l ≠ ""
  (Search.fresh [] labels).filterMap fun l =>
    let uses := labels.count l
    if 1 < uses then some (l, uses) else none

/-- The ends of an edge that are no node of the diagram. -/
def missingEnds (d : Diagram) (e : Edge) : List (EdgeEnd × String) :=
  [(.source, e.source), (.target, e.target)].filter fun end_ => !d.contains end_.2

/-- The ids joined to `id` by an edge, in either direction; an id need not be a node. -/
def joined (d : Diagram) (id : String) : List String :=
  d.edges.flatMap fun e =>
    (if e.source = id then [e.target] else []) ++ (if e.target = id then [e.source] else [])

/-- The nodes that no undirected path joins to the first node. Paths may run through ids that are
no node. -/
def disconnectedIds (d : Diagram) : List String :=
  match d.ids with
  | [] => []
  | first :: _ =>
    let steps := d.nodes.length + 2 * d.edges.length
    let met := Search.explore (joined d) steps [first] [first]
    d.ids.filter fun id => !met.contains id

/-- What a rule finds in a diagram. -/
def findings (rule : Rule) (d : Diagram) : List Finding :=
  match rule with
  | noOrphanedNodes => (orphans d).map fun n => .orphan n.id n.label
  | noCycles => d.findCycles.map .cycle
  | requireStartEnd =>
    (if d.nodes.any fun n => n.type == .start then [] else [.missingStart]) ++
      (if d.nodes.any fun n => n.type == .finish then [] else [.missingEnd])
  | maxComplexity =>
    let s := d.statistics
    (if complexNodeCount < s.nodeCount then [.manyNodes s.nodeCount] else []) ++
      (if complexBranching < s.maxOutDegree then [.highBranching s.maxOutDegree] else [])
  | uniqueLabels => (repeatedLabels d).map fun p => .duplicateLabel p.1 p.2
  | validEdges => (d.edges.flatMap (missingEnds d)).map fun p => .missingEndpoint p.1 p.2
  | noSelfLoops => (d.edges.filter Edge.isSelfLoop).map fun e => .selfLoop e.source
  | connectedGraph =>
    match disconnectedIds d with
    | [] => []
    | ids => [.disconnected ids]
  | maxNodes limit =>
    if limit < d.nodes.length then [.tooManyNodes d.nodes.length limit] else []
  | maxEdges limit =>
    if limit < d.edges.length then [.tooManyEdges d.edges.length limit] else []

/-- The issues that a rule reports about a diagram. -/
def check (rule : Rule) (d : Diagram) : List Issue := (rule.findings d).map fun f => ⟨rule.name, f⟩

end Rule

/-! ## Validators -/

/-- A list of rules that run one after the other. -/
structure Validator where
  rules : List Rule
  deriving DecidableEq, Repr

namespace Validator

/-- The validator of the default rules. -/
def standard : Validator := ⟨Rule.defaults⟩

/-- The validator of the named rules. Refuses the first unknown name. -/
def ofNames (names : List String) : Except Unsupported Validator :=
  (names.mapM Rule.read).map Validator.mk

/-- The issues of a diagram, rule by rule. -/
def issues (v : Validator) (d : Diagram) : List Issue := v.rules.flatMap fun rule => rule.check d

/-- No issue is an error. -/
def accepts (v : Validator) (d : Diagram) : Bool :=
  !(v.issues d).any fun i => i.severity == .error

end Validator

end Flowchart
