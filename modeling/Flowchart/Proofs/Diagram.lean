import Flowchart.Diagram.Basic

/-!
# Rebuilding keyed lists and diagrams

A keyed list is rebuilt by inserting its elements one after the other, because their keys are
distinct. So a dictionary is its entries, and a diagram is rebuilt from its nodes. The module also
says what a valid diagram is without its first dangling edge, and which edges lie between two ids.
-/

namespace Flowchart

/-! ## Keys -/

/-- An element with a new key is appended. -/
theorem Keyed.put_eq_append {α κ : Type} [DecidableEq κ] (key : α → κ) {a : α} {items : List α}
    (ha : key a ∉ items.map key) : Keyed.put key a items = items ++ [a] := by
  induction items with
  | nil => rfl
  | cons b rest ih =>
    rw [List.map_cons, List.mem_cons, not_or] at ha
    rw [Keyed.put, if_neg (Ne.symm ha.1), ih ha.2, List.cons_append]

/-- Elements with new keys are appended. -/
theorem Keyed.putAll_eq_append {α κ : Type} [DecidableEq κ] (key : α → κ) {items new : List α}
    (h : ((items ++ new).map key).Nodup) : Keyed.putAll key items new = items ++ new := by
  induction new generalizing items with
  | nil => rw [Keyed.putAll, List.foldl_nil, List.append_nil]
  | cons a rest ih =>
    have hnew : key a ∉ items.map key := by
      rw [List.map_append, List.map_cons, List.nodup_append] at h
      exact fun ha => h.2.2 _ ha _ List.mem_cons_self rfl
    have hrest : ((items ++ [a] ++ rest).map key).Nodup := by simpa using h
    have hgo := ih hrest
    rw [Keyed.putAll] at hgo
    rw [Keyed.putAll, List.foldl_cons, Keyed.put_eq_append key hnew, hgo, List.append_assoc,
      List.singleton_append]

/-- Nothing else gets into a list by inserting elements. -/
theorem Keyed.mem_putAll {α κ : Type} [DecidableEq κ] (key : α → κ) {items new : List α} {a : α}
    (h : a ∈ Keyed.putAll key items new) : a ∈ items ∨ a ∈ new := by
  induction new generalizing items with
  | nil => exact Or.inl h
  | cons b rest ih =>
    have hrest : a ∈ Keyed.putAll key (Keyed.put key b items) rest := h
    rcases ih hrest with hmem | hmem
    · rcases Keyed.mem_put key hmem with hitem | rfl
      · exact Or.inl hitem
      · exact Or.inr List.mem_cons_self
    · exact Or.inr (List.mem_cons_of_mem b hmem)

/-- Only the element itself has its key. -/
theorem Keyed.filter_key_eq {α κ : Type} [DecidableEq κ] (key : α → κ) {items : List α} {a : α}
    (h : (items.map key).Nodup) (ha : a ∈ items) : (items.filter fun b => key b = key a) = [a] := by
  induction items with
  | nil => simp at ha
  | cons b rest ih =>
    rw [List.map_cons, List.nodup_cons] at h
    rcases List.mem_cons.1 ha with rfl | ha
    · rw [List.filter_cons_of_pos (by simp), List.filter_eq_nil_iff.2]
      intro c hc hkey
      rw [decide_eq_true_eq] at hkey
      exact h.1 (by rw [← hkey]; exact List.mem_map_of_mem hc)
    · have hne : key b ≠ key a := fun hkey => h.1 (by rw [hkey]; exact List.mem_map_of_mem ha)
      rw [List.filter_cons_of_neg (by simpa using hne), ih h.2 ha]

/-- Where keys are distinct, a key finds the member that has it. -/
theorem Keyed.find?_eq_some_iff {α κ : Type} [DecidableEq κ] (key : α → κ) {items : List α} {k : κ}
    {a : α} (h : (items.map key).Nodup) :
    Keyed.find? key k items = some a ↔ a ∈ items ∧ key a = k := by
  constructor
  · intro hfind
    have hkey : key a = k := by simpa using List.find?_some hfind
    exact ⟨List.mem_of_find?_eq_some hfind, hkey⟩
  · rintro ⟨ha, rfl⟩
    exact Keyed.find?_eq_some_of_mem key h ha

/-- A key finds nothing exactly if no member has it. -/
theorem Keyed.find?_eq_none_iff {α κ : Type} [DecidableEq κ] (key : α → κ) {items : List α} {k : κ} :
    Keyed.find? key k items = none ↔ k ∉ items.map key := by
  simp [Keyed.find?]

/-- Inserting pairs puts them into the entries one after the other. -/
theorem Dictionary.entries_insertAll_eq_putAll (d : Dictionary) (pairs : List (String × String)) :
    (d.insertAll pairs).entries = Keyed.putAll Prod.fst d.entries pairs := by
  induction pairs generalizing d with
  | nil => rfl
  | cons p rest ih => exact ih (d.insert p.1 p.2)

/-- Inserting pairs with new keys appends them. -/
theorem Dictionary.entries_insertAll {d : Dictionary} {pairs : List (String × String)}
    (h : ((d.entries ++ pairs).map Prod.fst).Nodup) :
    (d.insertAll pairs).entries = d.entries ++ pairs := by
  rw [Dictionary.entries_insertAll_eq_putAll, Keyed.putAll_eq_append Prod.fst h]

/-- A dictionary is rebuilt by inserting its entries. -/
theorem Dictionary.insertAll_entries (d : Dictionary) : Dictionary.empty.insertAll d.entries = d := by
  have hentries : (Dictionary.empty.insertAll d.entries).entries = d.entries :=
    Dictionary.entries_insertAll (d := .empty) d.nodup
  cases d
  cases h : Dictionary.empty.insertAll _
  simp_all

/-- Only the empty dictionary has no entries. -/
theorem Dictionary.eq_empty_of_isEmpty {d : Dictionary} (h : d.isEmpty = true) :
    d = Dictionary.empty := by
  obtain ⟨entries, hnodup⟩ := d
  obtain rfl : entries = [] := List.isEmpty_iff.1 h
  rfl

/-! ## Sheets and their nodes -/

/-- A node may be appended under its id if that is no key yet. -/
theorem IsKeyed.append {slots : List (String × Node)} {n : Node} (h : IsKeyed slots)
    (hnew : n.id ∉ slots.map Prod.fst) : IsKeyed (slots ++ [(n.id, n)]) :=
  Keyed.put_eq_append (a := (n.id, n)) Prod.fst hnew ▸ h.put n

namespace Sheet

/-- What is retained of some members does not depend on what else they carry. -/
theorem retained_map {α β σ : Type} (f : α → β) (keep : σ → β → Bool × σ) (memory : σ)
    (items : List α) : retained keep memory (items.map f) =
      (retained (fun memory a => keep memory (f a)) memory items).map f := by
  induction items generalizing memory with
  | nil => rfl
  | cons a rest ih =>
    rw [List.map_cons, retained, retained]
    split
    · rw [List.map_cons, ih]
    · exact ih _

/-- Asking about the nodes of a sheet one after the other asks about what stands in its slots. -/
theorem nodes_retainNodesWith {σ : Type} (s : Sheet) (keep : σ → Node → Bool × σ) (memory : σ) :
    (s.retainNodesWith keep memory).nodes = retained keep memory s.nodes :=
  (retained_map Prod.snd keep memory s.slots).symm

theorem nodes_retainNodes (s : Sheet) (keep : Node → Bool) :
    (s.retainNodes keep).nodes = s.nodes.filter keep :=
  List.filter_map.symm

/-- A node is put among the nodes as it is put into the slots, if the nodes there stand under their
ids. -/
theorem nodes_put {slots : List (String × Node)} (h : IsKeyed slots) (n : Node) :
    (Keyed.put Prod.fst (n.id, n) slots).map Prod.snd =
      Keyed.put Node.id n (slots.map Prod.snd) := by
  induction slots with
  | nil => rfl
  | cons slot rest ih =>
    have hrest : IsKeyed rest := h.sublist (List.sublist_cons_self slot rest)
    have hid : slot.1 = slot.2.id := h.key_eq_id slot List.mem_cons_self
    rw [List.map_cons, Keyed.put, Keyed.put, hid]
    split
    · rfl
    · rw [List.map_cons, ih hrest]

/-- A node whose id is no key yet goes to the end. -/
theorem slots_insert {s : Sheet} {n : Node} (h : n.id ∉ s.keys) :
    (s.insert n).slots = s.slots ++ [(n.id, n)] :=
  Keyed.put_eq_append Prod.fst h

/-- The nodes of a sheet of nodes: each is put in place of the earlier one with its id. -/
theorem nodes_ofNodes (nodes : List Node) (metadata : Dictionary) :
    (ofNodes nodes metadata).nodes = Keyed.putAll Node.id [] nodes := by
  have hall : ∀ slots, IsKeyed slots →
      (Keyed.putAll Prod.fst slots (nodes.map fun n => (n.id, n))).map Prod.snd =
        Keyed.putAll Node.id (slots.map Prod.snd) nodes := by
    induction nodes with
    | nil => exact fun _ _ => rfl
    | cons n rest ih =>
      intro slots hslots
      have hrest := ih _ (hslots.put n)
      rwa [nodes_put hslots] at hrest
  exact hall [] .nil

end Sheet

namespace Diagram

variable {d : Diagram} {id : String} {n : Node}

/-- The slots of a diagram are its nodes, each under its id. -/
theorem slots_eq (d : Diagram) : d.slots = d.nodes.map fun n => (n.id, n) := d.keyed.eq_map

/-- The keys of a diagram are the ids of its nodes. -/
theorem keys_eq_ids (d : Diagram) : d.keys = d.ids := by
  rw [Sheet.keys, d.slots_eq, List.map_map]
  rfl

/-- No two nodes have the same id. -/
theorem nodup (d : Diagram) : (d.nodes.map Node.id).Nodup := by
  have hkeys : d.keys.Nodup := d.keyed.nodup_keys
  rwa [keys_eq_ids] at hkeys

/-- A diagram is its nodes, its edges and its metadata. -/
theorem ext_nodes {e : Diagram} (hnodes : d.nodes = e.nodes) (hedges : d.edges = e.edges)
    (hmetadata : d.metadata = e.metadata) : d = e := by
  have hslots : d.slots = e.slots := by rw [d.slots_eq, e.slots_eq, hnodes]
  obtain ⟨⟨slots, edges, metadata⟩, hd⟩ := d
  obtain ⟨⟨slots', edges', metadata'⟩, he⟩ := e
  obtain rfl : slots = slots' := hslots
  obtain rfl : edges = edges' := hedges
  obtain rfl : metadata = metadata' := hmetadata
  rfl

/-- The diagram of some nodes has these nodes. -/
@[simp]
theorem nodes_of (nodes : List Node) (edges : List Edge) (metadata : Dictionary)
    (nodup : (nodes.map Node.id).Nodup) : (of nodes edges metadata nodup).nodes = nodes := by
  rw [Sheet.nodes, of, List.map_map]
  exact List.map_id nodes

theorem nodes_retainNodes (d : Diagram) (keep : Node → Bool) :
    (d.retainNodes keep).nodes = d.nodes.filter keep :=
  d.toSheet.nodes_retainNodes keep

/-- The nodes of a diagram of nodes: each is put in place of the earlier one with its id. -/
theorem nodes_ofNodes_eq_putAll (nodes : List Node) (metadata : Dictionary) :
    (ofNodes nodes metadata).nodes = Keyed.putAll Node.id [] nodes :=
  Sheet.nodes_ofNodes nodes metadata

/-- Nodes with distinct ids are those of their diagram. -/
theorem nodes_ofNodes {nodes : List Node} (h : (nodes.map Node.id).Nodup) (metadata : Dictionary) :
    (ofNodes nodes metadata).nodes = nodes := by
  have happend : Keyed.putAll Node.id [] nodes = [] ++ nodes := Keyed.putAll_eq_append Node.id h
  rw [nodes_ofNodes_eq_putAll, happend, List.nil_append]

/-! ### Looking up -/

/-- Looking up by key is looking up by id. -/
theorem node?_eq_find? (d : Diagram) (id : String) : d.node? id = Keyed.find? Node.id id d.nodes := by
  rw [Sheet.node?, d.slots_eq, Keyed.find?, List.find?_map, Option.map_map]
  exact congrFun Option.map_id _

/-- A key is an id. -/
theorem contains_iff_mem_ids : d.contains id = true ↔ id ∈ d.ids := by
  rw [Sheet.contains, Keyed.contains_iff, ← Sheet.keys, d.keys_eq_ids]

/-- **Looking up an id finds the node that has it.** -/
theorem node?_eq_some_iff : d.node? id = some n ↔ n ∈ d.nodes ∧ n.id = id := by
  rw [node?_eq_find?]
  exact Keyed.find?_eq_some_iff Node.id d.nodup

/-- Nothing is found exactly for what is no id. -/
theorem node?_eq_none_iff : d.node? id = none ↔ id ∉ d.ids := by
  rw [node?_eq_find?]
  exact Keyed.find?_eq_none_iff Node.id

/-- Only one node has an id. -/
theorem eq_of_id_eq {m : Node} (hn : n ∈ d.nodes) (hm : m ∈ d.nodes) (h : n.id = m.id) : n = m := by
  have hfirst := node?_eq_some_iff.2 ⟨hn, h⟩
  have hsecond := node?_eq_some_iff.2 ⟨hm, rfl⟩
  exact Option.some.inj (hfirst.symm.trans hsecond)

/-! ### Adding a node -/

/-- A program that succeeds leaves its sheet as a diagram. -/
theorem perform_eq_ok {s : Sheet} {edit : Edit Unit} {h : edit.KeepsKeys}
    (hrun : edit.runOn d.toSheet = (.ok (), s)) :
    ∃ e, d.perform edit h = .ok e ∧ e.toSheet = s := by
  refine ⟨⟨(edit.runOn d.toSheet).2, h d.toSheet d.keyed⟩, ?_, congrArg Prod.snd hrun⟩
  have hanswer : (edit.runOn d.toSheet).1 = .ok () := congrArg Prod.fst hrun
  rw [perform, hanswer]
  rfl

/-- A program that stops leaves no diagram but its error. -/
theorem perform_eq_error {s : Sheet} {edit : Edit Unit} {h : edit.KeepsKeys}
    {error : DiagramError} (hrun : edit.runOn d.toSheet = (.error error, s)) :
    d.perform edit h = .error error := by
  have hanswer : (edit.runOn d.toSheet).1 = .error error := congrArg Prod.fst hrun
  rw [perform, hanswer]
  rfl

/-- **Adding a node** is refused for the empty id and for an id that is taken; otherwise the node
comes last. -/
theorem addNode_cases (d : Diagram) (n : Node) :
    (n.id = "" ∧ d.addNode n = .error .emptyId) ∨
      (n.id ≠ "" ∧ n.id ∈ d.ids ∧ d.addNode n = .error (.duplicateNode n.id)) ∨
      (n.id ≠ "" ∧ n.id ∉ d.ids ∧ ∃ e, d.addNode n = .ok e ∧
        e.nodes = d.nodes ++ [n] ∧ e.edges = d.edges ∧ e.metadata = d.metadata) := by
  have hrun := Edit.runOn_addNode n d.toSheet
  by_cases hempty : n.id = ""
  · rw [if_pos hempty] at hrun
    exact Or.inl ⟨hempty, perform_eq_error hrun⟩
  simp only [if_neg hempty, contains_iff_mem_ids] at hrun
  by_cases htaken : n.id ∈ d.ids
  · rw [if_pos htaken] at hrun
    exact Or.inr (Or.inl ⟨hempty, htaken, perform_eq_error hrun⟩)
  rw [if_neg htaken] at hrun
  obtain ⟨e, hadd, hsheet⟩ := perform_eq_ok (h := Edit.keepsKeys_addNode n) hrun
  refine Or.inr (Or.inr ⟨hempty, htaken, e, hadd, ?_, ?_, ?_⟩)
  · rw [hsheet, Sheet.nodes, Sheet.slots_insert (d.keys_eq_ids ▸ htaken), List.map_append]
    rfl
  · rw [hsheet]
    rfl
  · rw [hsheet]
    rfl

end Diagram

/-! ## Edges by their ends -/

/-- The ids that an edge joins. -/
def Edge.ends (e : Edge) : String × String := (e.source, e.target)

/-- The edges from `u` to `v`, in order. -/
def Diagram.edgesBetween (d : Diagram) (u v : String) : List Edge :=
  d.edges.filter fun e => e.ends = (u, v)

/-! ## Valid diagrams -/

/-- Without dangling edges there are both ends of every edge. -/
theorem Diagram.danglingEdges_eq_nil_iff {d : Diagram} :
    d.danglingEdges = [] ↔ ∀ e ∈ d.edges, e.source ∈ d.ids ∧ e.target ∈ d.ids := by
  have hconnects : ∀ e, d.connects e = true ↔ e.source ∈ d.ids ∧ e.target ∈ d.ids := by
    intro e
    rw [Sheet.connects, Bool.and_eq_true, contains_iff_mem_ids, contains_iff_mem_ids]
  rw [danglingEdges, List.filter_eq_nil_iff]
  refine forall₂_congr fun e _ => ?_
  rw [← hconnects, Bool.not_eq_true', Bool.not_eq_false]

/-- A valid diagram has both ends of every edge. -/
theorem Diagram.validate_eq_ok_iff {d : Diagram} :
    d.validate = .ok () ↔ ∀ e ∈ d.edges, e.source ∈ d.ids ∧ e.target ∈ d.ids := by
  rw [← danglingEdges_eq_nil_iff]
  unfold validate
  split
  · next h => simp [h]
  · next h => simp [h]

/-! ## Attributes that only name shape and label -/

/-- The entries of a dictionary that satisfy `keep`. -/
def Dictionary.filter (d : Dictionary) (keep : String × String → Bool) : Dictionary where
  entries := d.entries.filter keep
  nodup := d.nodup.sublist ((List.filter_sublist (p := keep)).map Prod.fst)

/-- The node without attributes called `shape` or `label`. -/
def Node.stripped (n : Node) : Node :=
  { n with attributes := n.attributes.filter fun p => p.1 ≠ "shape" && p.1 ≠ "label" }

/-- **A node that gets no attributes called `shape` or `label` is stripped.** -/
theorem Node.stripped_withAttributes {n : Node} {pairs : List (String × String)}
    (h : n.attributes = .empty) (hpairs : ∀ p ∈ pairs, (p.1 ≠ "shape" && p.1 ≠ "label") = true) :
    (n.withAttributes pairs).stripped = n.withAttributes pairs := by
  have hall : ∀ p ∈ (n.attributes.insertAll pairs).entries,
      (p.1 ≠ "shape" && p.1 ≠ "label") = true := by
    intro p hp
    rw [Dictionary.entries_insertAll_eq_putAll] at hp
    rcases Keyed.mem_putAll Prod.fst hp with hold | hnew
    · rw [h] at hold
      exact absurd hold List.not_mem_nil
    · exact hpairs p hnew
  have hfilter : ∀ d : Dictionary, (∀ p ∈ d.entries, (p.1 ≠ "shape" && p.1 ≠ "label") = true) →
      d.filter (fun p => p.1 ≠ "shape" && p.1 ≠ "label") = d := by
    rintro ⟨entries, hnodup⟩ hentries
    simp only [Dictionary.filter, List.filter_eq_self.2 hentries]
  rw [Node.stripped, Node.withAttributes, hfilter _ hall]

end Flowchart
