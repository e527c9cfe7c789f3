import Flowchart.Graph.Arcs

/-!
# Simple paths and elementary cycles

Both enumerations go depth first and follow parallel edges once.

* `findPaths` lists the simple paths between two nodes in the order in which the search meets them.
* `findCycles` lists the elementary cycles, each as seen from its earliest node, in the
  lexicographic order of their positions. A cycle is searched from its earliest node only, among the
  nodes that come later, so **it is found once**.

The number of paths and cycles can be exponential in the number of nodes.
-/

namespace Flowchart

/-- Lexicographic order on lists of positions. -/
def lexLe {n : Nat} : List (Fin n) → List (Fin n) → Bool
  | [], _ => true
  | _ :: _, [] => false
  | a :: as, b :: bs => a < b || (a == b && lexLe as bs)

namespace Arcs

variable {n : Nat}

/-- The elementary cycles whose earliest vertex is `root`, each from `root` up to the vertex before
it returns. -/
def cyclesFrom (arcs : Arcs n) (root : Fin n) : List (List (Fin n)) :=
  let table := arcs.neighbours
  let next v := (table.get v).filter fun w => root ≤ w
  (Search.simplePaths next root n [root] root).map List.dropLast

/-- The elementary cycles in lexicographic order. -/
def cycles (arcs : Arcs n) : List (List (Fin n)) :=
  ((List.finRange n).flatMap arcs.cyclesFrom).mergeSort lexLe

end Arcs

namespace Diagram

/-- The simple paths from one node to another, as lists of ids. From a node to itself there is just
the path that stays there; an id that is no node has no paths. -/
def findPaths (d : Diagram) (start goal : String) : List (List String) :=
  match d.position? start, d.position? goal with
  | some u, some v =>
    if u = v then [[start]]
    else
      let table := d.arcs.neighbours
      (Search.simplePaths table.get v d.nodes.length [u] u).map (·.map d.idAt)
  | _, _ => []

/-- The elementary cycles, as lists of ids. A self-loop is a cycle of one node. -/
def findCycles (d : Diagram) : List (List String) := d.arcs.cycles.map (·.map d.idAt)

end Diagram

end Flowchart
