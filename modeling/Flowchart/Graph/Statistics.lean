import Flowchart.Graph.Order

/-!
# Statistics

Counts that sum up a diagram. The numbers of nodes and edges count everything, dangling edges too;
degrees and isolation look at connected edges only.
-/

namespace Flowchart

/-- Summary counts of a diagram. Types that do not occur are left out. -/
structure Statistics where
  nodeCount : Nat
  edgeCount : Nat
  isolatedNodes : Nat
  hasCycles : Bool
  maxInDegree : Nat
  maxOutDegree : Nat
  nodeTypes : List (NodeType × Nat)
  edgeTypes : List (EdgeType × Nat)
  deriving DecidableEq, Repr

namespace Statistics

/-- The largest number of a list, zero for none. -/
def largest (ns : List Nat) : Nat := ns.foldl max 0

/-- How often each member of `all` occurs in `items`, those that do not occur left out. -/
def tally {τ : Type} [DecidableEq τ] (all items : List τ) : List (τ × Nat) :=
  (all.map fun t => (t, items.count t)).filter fun p => 0 < p.2

/-- The text of the summary, a line for each count. -/
def text (s : Statistics) : String :=
  let countLine (name : String) (n : Nat) := s!"  {name}: {n}\n"
  let section_ (title : String) (counts : List String) :=
    if counts.isEmpty then "" else title ++ "\n" ++ String.join counts
  s!"Nodes: {s.nodeCount}\n" ++ s!"Edges: {s.edgeCount}\n" ++
    s!"Isolated nodes: {s.isolatedNodes}\n" ++
    "Has cycles: " ++ (if s.hasCycles then "yes" else "no") ++ "\n" ++
    s!"Max in-degree: {s.maxInDegree}\n" ++ s!"Max out-degree: {s.maxOutDegree}\n" ++
    section_ "Node types:" (s.nodeTypes.map fun p => countLine p.1.name p.2) ++
    section_ "Edge types:" (s.edgeTypes.map fun p => countLine p.1.name p.2)

end Statistics

/-- Computes the summary counts of a diagram. -/
def Diagram.statistics (d : Diagram) : Statistics :=
  let places := List.finRange d.nodes.length
  let arcs := d.arcs
  let inDegree v := (arcs.predecessors v).length
  let outDegree v := (arcs.successors v).length
  { nodeCount := d.nodes.length
    edgeCount := d.edges.length
    isolatedNodes := (places.filter fun v => outDegree v == 0 && inDegree v == 0).length
    hasCycles := d.hasCycle
    maxInDegree := Statistics.largest (places.map inDegree)
    maxOutDegree := Statistics.largest (places.map outDegree)
    nodeTypes := Statistics.tally NodeType.all (d.nodes.map Node.type)
    edgeTypes := Statistics.tally EdgeType.all (d.edges.map Edge.type) }

end Flowchart
