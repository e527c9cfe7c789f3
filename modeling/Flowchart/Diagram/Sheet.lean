import Flowchart.Dictionary
import Flowchart.Vocabulary.Kinds

/-!
# Sheets: nodes under keys

A diagram is written on a sheet: nodes in slots, each under a key, edges and metadata, all in the order
of insertion. The order is significant: it is the order of every output and breaks the ties of the
graph algorithms. Nodes are looked up by key, and nothing about a sheet says that a node stands under
its own id or that keys are distinct; `IsKeyed` says both.

Edges name their ends by id. Inserting an edge does not look at the nodes, so **an edge may dangle**.

What changes a sheet in place is an `Edit`: it works step by step on the sheet at hand and may stop
with an error. What it has done until then stays done.
-/

namespace Flowchart

/-! ## Nodes and edges -/

/-- A step of a flowchart. -/
structure Node where
  id : String
  label : String
  type : NodeType := .unspecified
  attributes : Dictionary := .empty
  deriving DecidableEq, Repr

namespace Node

/-- Sets an attribute; a key that is already there keeps its place. -/
def withAttribute (n : Node) (key value : String) : Node :=
  { n with attributes := n.attributes.insert key value }

/-- Sets attributes one after the other. -/
def withAttributes (n : Node) (pairs : List (String × String)) : Node :=
  { n with attributes := n.attributes.insertAll pairs }

/-- Equality up to the order of the attributes. -/
def Same (a b : Node) : Prop :=
  a.id = b.id ∧ a.label = b.label ∧ a.type = b.type ∧ a.attributes.Same b.attributes

instance (a b : Node) : Decidable (a.Same b) := inferInstanceAs (Decidable (_ ∧ _))

end Node

/-- A directed connection between two node ids. The empty label is a label. -/
structure Edge where
  source : String
  target : String
  label : Option String := none
  type : EdgeType := .plain
  deriving DecidableEq, Repr

namespace Edge

/-- Source and target coincide. -/
def isSelfLoop (e : Edge) : Bool := e.source == e.target

end Edge

/-! ## Errors -/

/-- What can be wrong with the structure of a diagram or a request on it. -/
inductive DiagramError where
  | duplicateNode (id : String)
  | emptyId
  | unknownNode (id : String)
  | danglingEdge (source target missing : String)
  deriving DecidableEq, Repr

/-- The text of a structural error. -/
def DiagramError.message : DiagramError → String
  | duplicateNode id => s!"node `{id}` already exists"
  | emptyId => "node id must not be empty"
  | unknownNode id => s!"node `{id}` does not exist"
  | danglingEdge source target missing =>
    s!"edge {source} -> {target} references missing node `{missing}`"

/-! ## Sheets -/

/-- Nodes under keys, edges and metadata, each in insertion order. -/
structure Sheet where
  slots : List (String × Node)
  edges : List Edge
  metadata : Dictionary
  deriving DecidableEq, Repr

namespace Sheet

/-- The sheet on which nothing is written. -/
def empty : Sheet := ⟨[], [], .empty⟩

/-! ### Looking up -/

/-- The nodes, whatever their keys are. -/
def nodes (s : Sheet) : List Node := s.slots.map Prod.snd

/-- The keys of the nodes. -/
def keys (s : Sheet) : List String := s.slots.map Prod.fst

/-- The node under this key. -/
def node? (s : Sheet) (key : String) : Option Node :=
  (Keyed.find? Prod.fst key s.slots).map Prod.snd

/-- Some node stands under this key. -/
def contains (s : Sheet) (key : String) : Bool := Keyed.contains Prod.fst key s.slots

theorem length_nodes (s : Sheet) : s.nodes.length = s.slots.length := List.length_map ..

/-- The place of the node under this key among the nodes. -/
def position? (s : Sheet) (key : String) : Option (Fin s.nodes.length) :=
  (s.slots.findFinIdx? fun slot => slot.1 = key).map (Fin.cast s.length_nodes.symm)

/-- Both ends of the edge are keys. -/
def connects (s : Sheet) (e : Edge) : Bool := s.contains e.source && s.contains e.target

/-! ### Writing -/

/-- Puts a node under its id, in place of a node that stands there. -/
def insert (s : Sheet) (n : Node) : Sheet :=
  { s with slots := Keyed.put Prod.fst (n.id, n) s.slots }

/-- Appends an edge without looking at its ends. -/
def addEdge (s : Sheet) (e : Edge) : Sheet := { s with edges := s.edges ++ [e] }

/-- Appends edges in order. -/
def addEdges (s : Sheet) (es : List Edge) : Sheet := { s with edges := s.edges ++ es }

/-- Sets a metadata value; a key that is already there keeps its place. -/
def setMetadata (s : Sheet) (key value : String) : Sheet :=
  { s with metadata := s.metadata.insert key value }

/-- The members that `keep` accepts. It is asked about one after the other and may remember what it
was asked before. -/
def retained {α σ : Type} (keep : σ → α → Bool × σ) : (memory : σ) → List α → List α
  | _, [] => []
  | memory, a :: rest =>
    let answer := keep memory a
    if answer.1 then a :: retained keep answer.2 rest else retained keep answer.2 rest

theorem retained_sublist {α σ : Type} (keep : σ → α → Bool × σ) (memory : σ) (items : List α) :
    (retained keep memory items).Sublist items := by
  induction items generalizing memory with
  | nil => exact .slnil
  | cons a rest ih =>
    rw [retained]
    split
    · exact (ih _).cons_cons a
    · exact (ih _).cons a

/-- The predicate on places and members, for who counts the members. -/
def counting {α : Type} (keep : Nat → α → Bool) (place : Nat) (a : α) : Bool × Nat :=
  (keep place a, place + 1)

/-- Keeps the nodes that `keep` accepts, which starts with this memory; edges stay, also those that
dangle afterwards. -/
def retainNodesWith {σ : Type} (s : Sheet) (keep : σ → Node → Bool × σ) (memory : σ) : Sheet :=
  { s with slots := retained (fun memory slot => keep memory slot.2) memory s.slots }

/-- Keeps the edges that `keep` accepts, which starts with this memory. -/
def retainEdgesWith {σ : Type} (s : Sheet) (keep : σ → Edge → Bool × σ) (memory : σ) : Sheet :=
  { s with edges := retained keep memory s.edges }

/-- Keeps the nodes that satisfy `keep`; edges stay, also those that dangle afterwards. -/
def retainNodes (s : Sheet) (keep : Node → Bool) : Sheet :=
  { s with slots := s.slots.filter fun slot => keep slot.2 }

/-- Keeps the edges that satisfy `keep`. -/
def retainEdges (s : Sheet) (keep : Edge → Bool) : Sheet :=
  { s with edges := s.edges.filter keep }

/-- The sheet of some nodes, without edges. A node whose id was seen before replaces the earlier one in
its place. -/
def ofNodes (nodes : List Node) (metadata : Dictionary) : Sheet where
  slots := Keyed.putAll Prod.fst [] (nodes.map fun n => (n.id, n))
  edges := []
  metadata := metadata

end Sheet

/-! ## Editing -/

/-- A program on the sheet at hand. -/
abbrev Edit (α : Type) := ExceptT DiagramError (StateM Sheet) α

namespace Edit

/-- What a program answers for a sheet, and the sheet that it leaves. -/
def runOn {α : Type} (edit : Edit α) (s : Sheet) : Except DiagramError α × Sheet := edit.run.run s

/-- Appends a node. Refuses the empty id and an id that is taken. -/
def addNode (n : Node) : Edit Unit := do
  if n.id = "" then throw .emptyId
  if (← get).contains n.id then throw (.duplicateNode n.id)
  modify (·.insert n)

/-- **What adding a node does**: it checks the id before it writes. -/
theorem runOn_addNode (n : Node) (s : Sheet) : (addNode n).runOn s =
    if n.id = "" then (.error .emptyId, s)
    else if s.contains n.id = true then (.error (.duplicateNode n.id), s)
    else (.ok (), s.insert n) := by
  unfold addNode
  split
  · rfl
  · show (if s.contains n.id = true then _ else _ : Edit Unit).runOn s = _
    split <;> rfl

end Edit

/-! ## Keys and ids -/

/-- The keys are distinct, and every node stands under its own id. -/
structure IsKeyed (slots : List (String × Node)) : Prop where
  nodup_keys : (slots.map Prod.fst).Nodup
  key_eq_id : ∀ slot ∈ slots, slot.1 = slot.2.id

namespace IsKeyed

variable {slots : List (String × Node)}

theorem nil : IsKeyed [] := ⟨.nil, List.forall_mem_nil _⟩

/-- Leaving out nodes keeps the others under their ids. -/
theorem sublist {kept : List (String × Node)} (h : IsKeyed slots) (hkept : kept.Sublist slots) :
    IsKeyed kept :=
  ⟨h.nodup_keys.sublist (hkept.map Prod.fst), fun slot hslot => h.key_eq_id slot (hkept.subset hslot)⟩

/-- A node that is put under its id. -/
theorem put (h : IsKeyed slots) (n : Node) : IsKeyed (Keyed.put Prod.fst (n.id, n) slots) := by
  refine ⟨Keyed.nodup_map_key_put _ _ h.nodup_keys, fun slot hslot => ?_⟩
  rcases Keyed.mem_put _ hslot with hold | rfl
  · exact h.key_eq_id slot hold
  · rfl

/-- Nodes that are put under their ids one after the other. -/
theorem putAll (h : IsKeyed slots) (nodes : List Node) :
    IsKeyed (Keyed.putAll Prod.fst slots (nodes.map fun n => (n.id, n))) := by
  induction nodes generalizing slots with
  | nil => exact h
  | cons n rest ih => exact ih (h.put n)

/-- Nodes with distinct ids, each under its own. -/
theorem of_nodes {nodes : List Node} (h : (nodes.map Node.id).Nodup) :
    IsKeyed (nodes.map fun n => (n.id, n)) := by
  refine ⟨?_, fun slot hslot => ?_⟩
  · rw [List.map_map]
    exact h
  · obtain ⟨n, -, rfl⟩ := List.mem_map.1 hslot
    rfl

/-- The slots are the nodes under their ids. -/
theorem eq_map (h : IsKeyed slots) : slots = (slots.map Prod.snd).map fun n => (n.id, n) := by
  rw [List.map_map]
  refine (List.map_id slots).symm.trans (List.map_congr_left fun slot hslot => ?_)
  exact Prod.ext (h.key_eq_id slot hslot) rfl

end IsKeyed

/-- The program leaves nodes under their ids where it finds them so. -/
def Edit.KeepsKeys (edit : Edit Unit) : Prop :=
  ∀ s, IsKeyed s.slots → IsKeyed (edit.runOn s).2.slots

theorem Edit.keepsKeys_addNode (n : Node) : (addNode n).KeepsKeys := by
  intro s h
  rw [runOn_addNode]
  split
  · exact h
  split
  · exact h
  · exact h.put n

end Flowchart
