import Flowchart.Graph.Arcs

/-!
# Topological order

The nodes are placed one after the other. A node is ready when every arc into it comes from a
placed node; of the ready nodes the earliest goes next, so **the order is unique**. To know which
nodes are ready, each node counts its incoming arcs from nodes that are not placed yet.

On a cyclic graph some nodes are never ready. Walking backwards among them must come back to a node
that was met before, and the arc that closes this walk lies on a cycle.
-/

namespace Flowchart

/-- An edge that lies on a cycle. -/
structure CycleError where
  source : String
  target : String
  deriving DecidableEq, Repr

/-- The text of a refusal to order a cyclic diagram. -/
def CycleError.message (e : CycleError) : String :=
  s!"graph contains a cycle through edge {e.source} -> {e.target}"

/-- How far the placement of the vertices has come: for every vertex the number of its incoming arcs
from vertices that are not placed, the ready vertices in increasing order, and the placed ones in
the order of their placement. -/
structure Placement (n : Nat) where
  pending : Vector Nat n
  ready : List (Fin n)
  placed : List (Fin n)

namespace Placement

variable {n : Nat}

/-- Inserts a vertex into an increasing list. -/
def insertReady (v : Fin n) : List (Fin n) → List (Fin n)
  | [] => [v]
  | w :: rest => if v < w then v :: w :: rest else w :: insertReady v rest

/-- Nothing placed; the vertices without incoming arcs are ready. -/
def initial (arcs : Arcs n) : Placement n where
  pending := Vector.ofFn fun v => (arcs.predecessors v).length
  ready := (List.finRange n).filter fun v => (arcs.predecessors v).isEmpty
  placed := []

/-- Takes note that one arc into `v` comes from a placed vertex; the last such arc makes `v`
ready. -/
def release (s : Placement n) (v : Fin n) : Placement n :=
  let left := s.pending[v] - 1
  { s with
    pending := s.pending.set v left
    ready := if left = 0 then insertReady v s.ready else s.ready }

/-- Places the earliest ready vertex, if there is one. -/
def step? (arcs : Arcs n) (s : Placement n) : Option (Placement n) :=
  match s.ready with
  | [] => none
  | v :: ready =>
    some ((arcs.successors v).foldl release { s with ready, placed := s.placed ++ [v] })

/-- Places vertices until none is ready. -/
def run (arcs : Arcs n) : (fuel : Nat) → Placement n → Placement n
  | 0, s => s
  | fuel + 1, s =>
    match s.step? arcs with
    | none => s
    | some t => run arcs fuel t

end Placement

namespace Arcs

variable {n : Nat}

/-- The vertices that can be placed, in their order. -/
def placementOrder (arcs : Arcs n) : List (Fin n) :=
  ((Placement.initial arcs).run arcs n).placed

/-- Walks backwards from `v`, always to the first predecessor that satisfies `stuck`, until a vertex
of `seen` comes up, and returns the arc that leads from it. -/
def closingArc (arcs : Arcs n) (stuck : Fin n → Bool) :
    (fuel : Nat) → (seen : List (Fin n)) → (v : Fin n) → Fin n × Fin n
  | 0, _, v => (v, v)
  | fuel + 1, seen, v =>
    match (arcs.predecessors v).find? stuck with
    | none => (v, v)
    | some u => if u ∈ seen then (u, v) else closingArc arcs stuck fuel (u :: seen) u

end Arcs

namespace Diagram

/-- The diagram has a cycle of connected edges; a self-loop is one. -/
def hasCycle (d : Diagram) : Bool := d.arcs.placementOrder.length < d.nodes.length

/-- The ids in an order in which every connected edge points forward, the smallest such order by
insertion. Refuses a cyclic diagram and names an edge on a cycle. -/
def topologicalSort (d : Diagram) : Except CycleError (List String) :=
  let placed := d.arcs.placementOrder
  let stuck v := !placed.contains v
  match (List.finRange d.nodes.length).find? stuck with
  | none => .ok (placed.map d.idAt)
  | some v =>
    let arc := d.arcs.closingArc stuck d.nodes.length [v] v
    .error ⟨d.idAt arc.1, d.idAt arc.2⟩

end Diagram

end Flowchart
