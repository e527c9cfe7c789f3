import Flowchart.Diagram.Basic

/-!
# Comparing two diagrams

Nodes are matched by id; a node is modified when its label, its type or its attributes differ.
Edges have no identity, so they are matched as a multiset: **an edge that occurs twice in one
diagram and once in the other is one change**. Of equal edges the earlier ones are matched first.
-/

namespace Flowchart

/-- What differs between an old and a new diagram. -/
structure Changes where
  addedNodes : List Node
  removedNodes : List Node
  modifiedNodes : List (Node × Node)
  addedEdges : List Edge
  removedEdges : List Edge
  deriving DecidableEq, Repr

/-- How many copies of each edge are there to be matched with. -/
abbrev Copies := List (Edge × Nat)

namespace Copies

/-- The number of copies of an edge; none of an edge without an entry. -/
def of (copies : Copies) (e : Edge) : Nat :=
  match Keyed.find? Prod.fst e copies with
  | some entry => entry.2
  | none => 0

/-- One more copy of an edge. -/
def add (copies : Copies) (e : Edge) : Copies := Keyed.put Prod.fst (e, copies.of e + 1) copies

/-- The copies in a list of edges. -/
def count (edges : List Edge) : Copies := edges.foldl add []

end Copies

/-- The edges that stay over when each uses up one of the copies. -/
def leftOver : Copies → (edges : List Edge) → List Edge
  | _, [] => []
  | copies, e :: rest =>
    match copies.of e with
    | 0 => e :: leftOver copies rest
    | k + 1 => leftOver (Keyed.put Prod.fst (e, k) copies) rest

/-- The edges that stay over when each is matched with an equal one of `others`, used up once. -/
def unmatched (edges others : List Edge) : List Edge := leftOver (Copies.count others) edges

namespace Changes

/-- Compares two diagrams. Added and modified nodes come in the order of the new diagram, removed
ones in that of the old. -/
def between (old new : Diagram) : Changes where
  addedNodes := new.nodes.filter fun n => !old.contains n.id
  removedNodes := old.nodes.filter fun n => !new.contains n.id
  modifiedNodes := new.nodes.filterMap fun n =>
    match old.node? n.id with
    | some previous => if previous.Same n then none else some (previous, n)
    | none => none
  addedEdges := unmatched new.edges old.edges
  removedEdges := unmatched old.edges new.edges

/-- The number of changes. -/
def total (c : Changes) : Nat :=
  c.addedNodes.length + c.removedNodes.length + c.modifiedNodes.length + c.addedEdges.length +
    c.removedEdges.length

/-- Something changed. -/
def any (c : Changes) : Bool := 0 < c.total

/-! ## The report -/

/-- A node in one line of a report. -/
def nodeLine (n : Node) : String := s!"{n.id}: {n.label} [{n.type.name}]"

/-- An edge in one line of a report; a missing label and the plain type are not written. -/
def edgeLine (e : Edge) : String :=
  let label := match e.label with
    | some label => s!" ({label})"
    | none => ""
  let type := if e.type = .plain then "" else s!" [{e.type.name}]"
  s!"{e.source} -> {e.target}" ++ label ++ type

/-- The lines about a modified node. -/
def modifiedLines (old new : Node) : List String :=
  [s!"  ~ {old.id}:"] ++
    (if old.label = new.label then [] else [s!"      label: {old.label} -> {new.label}"]) ++
    (if old.type = new.type then [] else [s!"      type: {old.type.name} -> {new.type.name}"]) ++
    (if old.attributes.Same new.attributes then [] else ["      attributes changed"])

/-- A headed block of a report, or nothing for no items. -/
def block {α : Type} (title : String) (items : List α) (lines : List String) : List String :=
  if items.isEmpty then [] else s!"\n{title} ({items.length}):" :: lines

/-- The report of all changes in several lines. -/
def report (c : Changes) : String :=
  if c.any then
    let lines :=
      [s!"Total changes: {c.total}"] ++
      block "Added nodes" c.addedNodes (c.addedNodes.map fun n => s!"  + {nodeLine n}") ++
      block "Removed nodes" c.removedNodes (c.removedNodes.map fun n => s!"  - {nodeLine n}") ++
      block "Modified nodes" c.modifiedNodes
        (c.modifiedNodes.flatMap fun p => modifiedLines p.1 p.2) ++
      block "Added edges" c.addedEdges (c.addedEdges.map fun e => s!"  + {edgeLine e}") ++
      block "Removed edges" c.removedEdges (c.removedEdges.map fun e => s!"  - {edgeLine e}")
    "\n".intercalate lines ++ "\n"
  else "No changes detected."

/-- The changes in one line. -/
def summary (c : Changes) : String :=
  if c.any then
    s!"{c.total} change(s): {c.addedNodes.length} node(s) added, " ++
      s!"{c.removedNodes.length} removed, {c.modifiedNodes.length} modified; " ++
      s!"{c.addedEdges.length} edge(s) added, {c.removedEdges.length} removed"
  else "No changes detected."

end Changes

end Flowchart
