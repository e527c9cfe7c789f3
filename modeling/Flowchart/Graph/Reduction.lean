import Flowchart.Graph.Arcs

/-!
# Transitive reduction

An edge is redundant when the other edges still lead from its source to its target. `simplify`
looks at the edges in order and drops each one that is redundant beside the edges kept so far and
those still to come. So **no removal changes what can be reached from where**, and of two parallel
edges the later one survives. Dangling edges are kept.
-/

namespace Flowchart

/-- An edge together with its arc, if it has one. -/
structure WiredEdge (n : Nat) where
  edge : Edge
  arc? : Option (Fin n × Fin n)

namespace WiredEdge

variable {n : Nat}

/-- The other edges lead from the source of `e` to its target. -/
def isRedundant (e : WiredEdge n) (others : List (WiredEdge n)) : Bool :=
  match e.arc? with
  | none => false
  | some (u, v) => (Arcs.reachable (others.filterMap (·.arc?)) u).contains v

/-- Drops, in order, each edge that is redundant beside those kept so far and those to come. -/
def reduce (kept : List (WiredEdge n)) : List (WiredEdge n) → List (WiredEdge n)
  | [] => kept
  | e :: rest =>
    if e.isRedundant (kept ++ rest) then reduce kept rest else reduce (kept ++ [e]) rest

end WiredEdge

namespace Sheet

/-- The edges with their arcs. -/
def wiring (s : Sheet) : List (WiredEdge s.nodes.length) :=
  s.edges.map fun e => ⟨e, s.arc? e⟩

/-- Removes the redundant edges and, if asked to, the nodes that no connected edge touches. -/
def simplify (s : Sheet) (removeIsolated : Bool) : Sheet :=
  let kept := WiredEdge.reduce [] s.wiring
  let reduced := { s with edges := kept.map (·.edge) }
  if removeIsolated then
    let touched := (kept.filterMap (·.arc?)).flatMap fun a => [a.1.val, a.2.val]
    reduced.retainNodesWith (counting fun i _ => touched.contains i) 0
  else reduced

/-- Some of the nodes stay, under their keys. -/
theorem slots_simplify_sublist (s : Sheet) (removeIsolated : Bool) :
    (s.simplify removeIsolated).slots.Sublist s.slots := by
  unfold simplify
  dsimp only
  split
  · exact retained_sublist _ 0 s.slots
  · exact .refl _

end Sheet

/-- Removes the redundant edges and, if asked to, the nodes that no connected edge touches. -/
def Diagram.simplify (d : Diagram) (removeIsolated : Bool) : Diagram :=
  ⟨d.toSheet.simplify removeIsolated, d.keyed.sublist (d.slots_simplify_sublist removeIsolated)⟩

end Flowchart
