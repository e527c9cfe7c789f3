import Flowchart.Graph.Arcs

/-!
# Reachability and the part of a diagram below a node

`reachable` lists the nodes that one or more connected edges lead to, in breadth-first order; the
start belongs to them only if it lies on a cycle. `extract` keeps the nodes within a number of
steps of a root and all edges between them.

Which nodes these are is found out by a survey: breadth first, each vertex is noted with the level on
which it is met first, and **a vertex at the limit leads no further**.
-/

namespace Flowchart

/-- How far a survey has come: the levels of the vertices that were met, and those of them whose
successors are still to be met, in the order in which they were met. -/
structure Survey (n : Nat) where
  level : Vector (Option Nat) n
  queue : List (Fin n)

namespace Survey

variable {n : Nat}

/-- The root is met, on level zero. -/
def initial (root : Fin n) : Survey n where
  level := (Vector.replicate n none).set root (some 0) root.isLt
  queue := [root]

/-- Meets a vertex on a level, unless it was met before. -/
def meet (level : Nat) (s : Survey n) (v : Fin n) : Survey n :=
  match s.level.get v with
  | some _ => s
  | none => { level := s.level.set v (some level) v.isLt, queue := s.queue ++ [v] }

/-- Takes the first vertex of the queue and meets its successors on the next level, unless the
vertex lies at the limit. -/
def step? (arcs : Arcs n) (limit? : Option Nat) (s : Survey n) : Option (Survey n) :=
  match s.queue with
  | [] => none
  | v :: queue =>
    match s.level.get v with
    | none => some { s with queue }
    | some level =>
      if limit?.any fun limit => limit ≤ level then some { s with queue }
      else some ((arcs.successors v).foldl (meet (level + 1)) { s with queue })

/-- Goes on until the queue is empty. -/
def run (arcs : Arcs n) (limit? : Option Nat) : (fuel : Nat) → Survey n → Survey n
  | 0, s => s
  | fuel + 1, s =>
    match s.step? arcs limit? with
    | none => s
    | some t => run arcs limit? fuel t

end Survey

/-- The level of every vertex within `limit?` steps of `root`; no limit means any number of steps. -/
def Arcs.levels {n : Nat} (arcs : Arcs n) (root : Fin n) (limit? : Option Nat) :
    Vector (Option Nat) n :=
  ((Survey.initial root).run arcs limit? n).level

namespace Diagram

/-- The ids that can be reached from a node along one or more connected edges, in breadth-first
order. An id that is no node reaches nothing. -/
def reachable (d : Diagram) (start : String) : List String :=
  match d.position? start with
  | some v => (d.arcs.reachable v).map d.idAt
  | none => []

/-- One or more connected edges lead from `start` to `target`. -/
def isReachable (d : Diagram) (start target : String) : Bool :=
  match d.position? start, d.position? target with
  | some u, some v => (d.arcs.reachable u).contains v
  | _, _ => false

end Diagram

/-- What the nodes within `limit?` steps of the root, which stands at a position, and the edges between
them leave of a sheet, in their order. -/
def Sheet.part (s : Sheet) (start : Fin s.nodes.length) (limit? : Option Nat) : Sheet :=
  let levels := s.arcs.levels start limit?
  let keeps key := (s.position? key).any fun v => (levels.get v).isSome
  let noted i (_ : Node) := levels[i]?.any Option.isSome
  (s.retainNodesWith (counting noted) 0).retainEdges fun e => keeps e.source && keeps e.target

/-- The nodes within `limit?` steps of the root and the edges between them, in their order.
Refuses a root under which no node stands. -/
def Sheet.extract (s : Sheet) (root : String) (limit? : Option Nat) : Except DiagramError Sheet :=
  match s.position? root with
  | none => .error (.unknownNode root)
  | some start => .ok (s.part start limit?)

/-- Some of the nodes stay, under their keys. -/
theorem Sheet.slots_extract_sublist {s part : Sheet} {root : String} {limit? : Option Nat}
    (h : s.extract root limit? = .ok part) : part.slots.Sublist s.slots := by
  unfold extract at h
  split at h
  · exact absurd h (by simp)
  · obtain rfl := Except.ok.inj h
    exact retained_sublist _ 0 s.slots

/-- The nodes within `limit?` steps of the root and the edges between them, in their order.
Refuses a root that is no node. -/
def Diagram.extract (d : Diagram) (root : String) (limit? : Option Nat) :
    Except DiagramError Diagram :=
  match h : d.toSheet.extract root limit? with
  | .ok part => .ok ⟨part, d.keyed.sublist (Sheet.slots_extract_sublist h)⟩
  | .error error => .error error

end Flowchart
