import Flowchart.Diagram.Sheet

/-!
# Diagrams

A diagram is a sheet on which every node stands under its own id, and no two nodes under the same. So
the places of the nodes, their keys and their ids say the same, and a diagram is a list of nodes with
distinct ids, a list of edges and a dictionary of metadata. `Diagram.validate` finds the first edge
that dangles.
-/

namespace Flowchart

/-- Nodes with distinct ids, each under its own, edges and metadata, each in insertion order. -/
structure Diagram extends Sheet where
  keyed : IsKeyed slots
  deriving DecidableEq, Repr

namespace Diagram

open Sheet

/-- The metadata key of the title. -/
def titleKey : String := "title"

/-- The metadata key of the layout direction. -/
def directionKey : String := "direction"

/-- The diagram without nodes, edges and metadata. -/
def empty : Diagram := ⟨.empty, .nil⟩

instance : Inhabited Diagram := ⟨empty⟩

/-- The diagram of nodes with distinct ids. -/
def of (nodes : List Node) (edges : List Edge) (metadata : Dictionary)
    (nodup : (nodes.map Node.id).Nodup) : Diagram :=
  ⟨⟨nodes.map fun n => (n.id, n), edges, metadata⟩, .of_nodes nodup⟩

/-! ### Looking up -/

/-- The ids of the nodes. -/
def ids (d : Diagram) : List String := d.nodes.map Node.id

/-- The title, if one is set. -/
def title? (d : Diagram) : Option String := d.metadata.get? titleKey

/-- There is neither a node nor an edge. -/
def isEmpty (d : Diagram) : Bool := d.slots.isEmpty && d.edges.isEmpty

/-! ### Building -/

/-- The diagram that a program leaves, unless it stops with an error. -/
def perform (d : Diagram) (edit : Edit Unit) (h : edit.KeepsKeys) : Except DiagramError Diagram :=
  let done := edit.runOn d.toSheet
  done.1.map fun _ => ⟨done.2, h d.toSheet d.keyed⟩

/-- Appends a node. Refuses the empty id and an id that is taken. -/
def addNode (d : Diagram) (n : Node) : Except DiagramError Diagram :=
  d.perform (.addNode n) (Edit.keepsKeys_addNode n)

/-- Appends an edge without looking at its ends. -/
def addEdge (d : Diagram) (e : Edge) : Diagram := ⟨d.toSheet.addEdge e, d.keyed⟩

/-- Appends edges in order. -/
def addEdges (d : Diagram) (es : List Edge) : Diagram := ⟨d.toSheet.addEdges es, d.keyed⟩

/-- Sets a metadata value; a key that is already there keeps its place. -/
def setMetadata (d : Diagram) (key value : String) : Diagram :=
  ⟨d.toSheet.setMetadata key value, d.keyed⟩

/-- Keeps the nodes that satisfy `keep`; edges stay, also those that dangle afterwards. -/
def retainNodes (d : Diagram) (keep : Node → Bool) : Diagram :=
  ⟨d.toSheet.retainNodes keep, d.keyed.sublist List.filter_sublist⟩

/-- Keeps the edges that satisfy `keep`. -/
def retainEdges (d : Diagram) (keep : Edge → Bool) : Diagram := ⟨d.toSheet.retainEdges keep, d.keyed⟩

/-- The diagram of some nodes, without edges. A node whose id was seen before replaces the earlier one
in its place. -/
def ofNodes (nodes : List Node) (metadata : Dictionary) : Diagram :=
  ⟨.ofNodes nodes metadata, IsKeyed.nil.putAll nodes⟩

/-! ### Dangling edges -/

/-- The edges that miss an end, in order. -/
def danglingEdges (d : Diagram) : List Edge := d.edges.filter fun e => !d.connects e

/-- Refuses the first dangling edge, naming its source if that is missing and else its target. -/
def validate (d : Diagram) : Except DiagramError Unit :=
  match d.danglingEdges with
  | [] => .ok ()
  | e :: _ =>
    let missing := if d.contains e.source then e.target else e.source
    .error (.danglingEdge e.source e.target missing)

/-! ### Adjacency -/

/-- Ids in order, each with the ids of its neighbours. -/
abbrev Adjacency := List (String × List String)

/-- Appends a neighbour to the list of an id. -/
def Adjacency.note (a : Adjacency) (id neighbour : String) : Adjacency :=
  a.map fun entry => if entry.1 = id then (entry.1, entry.2 ++ [neighbour]) else entry

/-- Goes through the connected edges in order and notes for the near end of each its far end. Every
node has an entry, and each edge adds one neighbour, so parallel edges add the same one again. -/
def adjacency (d : Diagram) (near far : Edge → String) : Adjacency :=
  (d.edges.filter d.connects).foldl (fun a e => a.note (near e) (far e))
    (d.keys.map fun id => (id, []))

/-- The targets of the outgoing edges of every node. -/
def outAdjacency (d : Diagram) : Adjacency := d.adjacency Edge.source Edge.target

/-- The sources of the incoming edges of every node. -/
def inAdjacency (d : Diagram) : Adjacency := d.adjacency Edge.target Edge.source

/-! ### Equality up to order -/

/-- Equality where the order of nodes, attributes and metadata does not count, but that of edges
does. -/
def Same (a b : Diagram) : Prop :=
  a.nodes.length = b.nodes.length ∧ (∀ n ∈ a.nodes, ∃ m ∈ b.nodes, n.Same m) ∧
    a.edges = b.edges ∧ a.metadata.Same b.metadata

instance (a b : Diagram) : Decidable (a.Same b) :=
  inferInstanceAs (Decidable (_ ∧ _ ∧ _ ∧ _))

end Diagram

end Flowchart
