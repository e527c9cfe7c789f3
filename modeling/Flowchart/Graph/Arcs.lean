import Flowchart.Diagram.Basic
import Flowchart.Graph.Search

/-!
# Arcs: the connected edges by position

The graph algorithms work on positions among the nodes instead of ids. An arc is the pair of the
positions of the ends of an edge; **a dangling edge has no arc**, so every algorithm ignores it.
One arc stands for each connected edge, in edge order, so parallel edges give equal arcs.
-/

namespace Flowchart

/-- The connected edges of a graph on `n` vertices, as pairs of positions. -/
abbrev Arcs (n : Nat) := List (Fin n × Fin n)

namespace Arcs

variable {n : Nat}

/-- The targets of the arcs that leave `v`, one entry for each arc. -/
def successors (arcs : Arcs n) (v : Fin n) : List (Fin n) :=
  arcs.filterMap fun a => if a.1 = v then some a.2 else none

/-- The sources of the arcs that enter `v`, one entry for each arc. -/
def predecessors (arcs : Arcs n) (v : Fin n) : List (Fin n) :=
  arcs.filterMap fun a => if a.2 = v then some a.1 else none

theorem mem_successors {arcs : Arcs n} {u v : Fin n} :
    v ∈ arcs.successors u ↔ (u, v) ∈ arcs := by
  simp only [successors, List.mem_filterMap]
  constructor
  · rintro ⟨⟨a, b⟩, hmem, h⟩
    grind
  · intro h
    exact ⟨(u, v), h, by simp⟩

theorem mem_predecessors {arcs : Arcs n} {u v : Fin n} :
    u ∈ arcs.predecessors v ↔ (u, v) ∈ arcs := by
  simp only [predecessors, List.mem_filterMap]
  constructor
  · rintro ⟨⟨a, b⟩, hmem, h⟩
    grind
  · intro h
    exact ⟨(u, v), h, by simp⟩

/-- The successors of every vertex with parallel arcs counted once, computed ahead of a search that
asks for them often. -/
def neighbours (arcs : Arcs n) : Vector (List (Fin n)) n :=
  Vector.ofFn fun v => Search.fresh [] (arcs.successors v)

/-- What can be reached from `v` along one or more arcs, in breadth-first order. -/
def reachable (arcs : Arcs n) (v : Fin n) : List (Fin n) :=
  Search.explore arcs.successors (n + 1) [v] []

end Arcs

namespace Sheet

/-- The arc of an edge, if there are nodes under both of its ends. -/
def arc? (s : Sheet) (e : Edge) : Option (Fin s.nodes.length × Fin s.nodes.length) :=
  match s.position? e.source, s.position? e.target with
  | some u, some v => some (u, v)
  | _, _ => none

/-- The arcs of a sheet, in edge order. -/
def arcs (s : Sheet) : Arcs s.nodes.length := s.edges.filterMap s.arc?

end Sheet

/-- The id of the node at a position. -/
def Diagram.idAt (d : Diagram) (v : Fin d.nodes.length) : String := d.nodes[v].id

end Flowchart
