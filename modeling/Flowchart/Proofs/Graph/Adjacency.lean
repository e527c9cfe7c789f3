import Flowchart.Graph.Statistics
import Flowchart.Proofs.Diagram
import Flowchart.Proofs.Graph.Order
import Mathlib

/-!
# Neighbours by id and by position

A diagram lists neighbours twice: by id, noting the ends of one connected edge after the other, and by
position, as the successors and predecessors along the arcs. **Both give the same lists.** So an edge
counts in the list of its source and in that of its target once each, however many edges run
parallel to it and also where it is a self-loop, and the degrees of the statistics are the lengths of
these lists.
-/

namespace Flowchart

/-- Where every member has one of some distinct keys, the members of each key are all members. -/
theorem sum_countP_eq_length {α κ : Type} [DecidableEq κ] {members : List α} {keys : List κ}
    (key : α → κ) (hnodup : keys.Nodup) (hkeys : ∀ a ∈ members, key a ∈ keys) :
    (keys.map fun k => members.countP fun a => key a == k).sum = members.length := by
  have hcount : ∀ k, (members.countP fun a => key a == k) = (members.map key : Multiset κ).count k := by
    intro k
    rw [Multiset.coe_count, List.count_eq_countP, List.countP_map]
    rfl
  have hsub : ∀ k ∈ (members.map key : Multiset κ), k ∈ keys.toFinset := by
    intro k hk
    obtain ⟨a, ha, rfl⟩ := List.mem_map.1 (Multiset.mem_coe.1 hk)
    exact List.mem_toFinset.2 (hkeys a ha)
  have hsum := Multiset.sum_count_eq_card hsub
  rw [List.sum_toFinset _ hnodup, Multiset.coe_card, List.length_map] at hsum
  simpa only [hcount] using hsum

/-- The largest of some numbers is their maximum. -/
theorem Statistics.largest_eq (ns : List Nat) : largest ns = ns.max?.getD 0 := by
  cases ns with
  | nil => rfl
  | cons n ns =>
    rw [List.max?_cons', largest, List.foldl_cons, Nat.zero_max]
    rfl

namespace Diagram

variable {d : Diagram} {near far : Edge → String}

/-! ## One pass over the edges -/

/-- The far ends of the connected edges whose near end is `id`, in edge order. -/
def farEnds (d : Diagram) (near far : Edge → String) (id : String) : List String :=
  (d.edges.filter fun e => d.connects e && near e == id).map far

/-- **What the pass adds to the entries**: to each the far ends of its own edges. -/
theorem foldl_note (edges : List Edge) (a : Adjacency) :
    edges.foldl (fun a e => a.note (near e) (far e)) a =
      a.map fun entry =>
        (entry.1, entry.2 ++ (edges.filter fun e => near e == entry.1).map far) := by
  induction edges generalizing a with
  | nil => simp
  | cons e edges ih =>
    rw [List.foldl_cons, ih, Adjacency.note, List.map_map]
    refine List.map_congr_left fun entry _ => ?_
    by_cases h : entry.1 = near e
    · simp [h]
    · have hne : (near e == entry.1) = false := by simpa using Ne.symm h
      simp [h, hne]

/-- **The adjacency of a diagram**: each id in order with the far ends of its edges. -/
theorem adjacency_eq (d : Diagram) (near far : Edge → String) :
    d.adjacency near far = d.ids.map fun id => (id, d.farEnds near far id) := by
  rw [adjacency, foldl_note, d.keys_eq_ids, List.map_map]
  refine List.map_congr_left fun id _ => ?_
  simp [farEnds, List.filter_filter, Bool.and_comm]

/-- **An id finds the far ends of its own edges.** -/
theorem lookup_adjacency {id : String} (h : id ∈ d.ids) :
    (d.adjacency near far).lookup id = some (d.farEnds near far id) := by
  rw [adjacency_eq]
  exact List.lookup_graph (d.farEnds near far) h

/-- Every node has one entry, in the order of the nodes. -/
theorem map_fst_adjacency : (d.adjacency near far).map Prod.fst = d.ids := by
  rw [adjacency_eq, List.map_map]
  exact List.map_id _

/-- The lengths of the entries are the degrees of the nodes, place by place. -/
theorem map_length_adjacency :
    ((d.adjacency near far).map fun entry => entry.2.length) =
      (List.finRange d.nodes.length).map fun v => (d.farEnds near far (d.idAt v)).length := by
  rw [adjacency_eq, List.map_map, ← map_idAt_finRange, List.map_map]
  rfl

/-- The list lengths count every connected edge once. -/
theorem sum_length_adjacency (hnear : ∀ e ∈ d.edges, d.connects e = true → near e ∈ d.ids) :
    ((d.adjacency near far).map fun entry => entry.2.length).sum + d.danglingEdges.length =
      d.edges.length := by
  have hkeys : ∀ e ∈ d.edges.filter d.connects, near e ∈ d.ids := by
    intro e he
    obtain ⟨hmem, hconnects⟩ := List.mem_filter.1 he
    exact hnear e hmem hconnects
  have hlength : ((d.adjacency near far).map fun entry => entry.2.length) =
      d.ids.map fun id => (d.edges.filter d.connects).countP fun e => near e == id := by
    rw [adjacency_eq, List.map_map]
    refine List.map_congr_left fun id _ => ?_
    show (d.farEnds near far id).length = _
    rw [farEnds, List.length_map, ← List.countP_eq_length_filter, List.countP_filter]
    simp only [Bool.and_comm]
  have hnodup : d.ids.Nodup := d.nodup
  rw [hlength, sum_countP_eq_length near hnodup hkeys, danglingEdges,
    ← List.countP_eq_length_filter, ← List.countP_eq_length_filter,
    List.length_eq_countP_add_countP d.connects]
  simp

/-! ## Successors and predecessors -/

/-- The targets of an id are the ids of its successors. -/
theorem farEnds_source_target (v : Fin d.nodes.length) :
    d.farEnds Edge.source Edge.target (d.idAt v) = (d.arcs.successors v).map d.idAt :=
  (map_idAt_successors v).symm

/-- The sources are those of its predecessors. -/
theorem farEnds_target_source (v : Fin d.nodes.length) :
    d.farEnds Edge.target Edge.source (d.idAt v) = (d.arcs.predecessors v).map d.idAt :=
  (map_idAt_filterMap_arcs (fun _ _ harc => (arc?_eq_some_iff.1 harc).2)
    (fun _ _ harc => (arc?_eq_some_iff.1 harc).1) v).symm

/-- The edges between two ids are counted among all edges. -/
theorem length_edgesBetween (u v : String) :
    (d.edgesBetween u v).length = d.edges.countP fun e => e.source == u && e.target == v := by
  rw [edgesBetween, ← List.countP_eq_length_filter]
  refine List.countP_congr fun e _ => ?_
  simp [Edge.ends]

/-- An edge between two nodes is connected, so it counts for its near end. -/
theorem count_farEnds {u v : String} (hnear : ∀ e, near e = u → far e = v → d.connects e = true) :
    (d.farEnds near far u).count v = d.edges.countP fun e => near e == u && far e == v := by
  rw [farEnds, List.count_eq_countP, List.countP_map, List.countP_filter]
  refine List.countP_congr fun e _ => ?_
  have h := hnear e
  simp only [Function.comp_apply, Bool.and_eq_true, beq_iff_eq]
  tauto

/-- A far end that is a node makes the edge connected. -/
theorem farEnds_eq {id : String} (hid : id ∈ d.ids)
    (hconnects : ∀ e, d.connects e = true ↔ near e ∈ d.ids ∧ far e ∈ d.ids) :
    d.farEnds near far id = (d.edges.filter fun e => near e = id ∧ far e ∈ d.ids).map far := by
  rw [farEnds]
  congr 1
  refine List.filter_congr fun e _ => ?_
  rw [Bool.eq_iff_iff, Bool.and_eq_true, hconnects, beq_iff_eq, decide_eq_true_eq]
  constructor
  · rintro ⟨⟨-, hfar⟩, hnear⟩
    exact ⟨hnear, hfar⟩
  · rintro ⟨rfl, hfar⟩
    exact ⟨⟨hid, hfar⟩, rfl⟩

/-! ## The degrees of the statistics -/

/-- The greatest out-degree is the length of the longest entry. -/
theorem maxOutDegree_eq (d : Diagram) :
    d.statistics.maxOutDegree =
      (d.outAdjacency.map fun entry => entry.2.length).max?.getD 0 := by
  rw [outAdjacency, map_length_adjacency]
  simp only [farEnds_source_target, List.length_map]
  exact Statistics.largest_eq _

/-- So is the greatest in-degree. -/
theorem maxInDegree_eq (d : Diagram) :
    d.statistics.maxInDegree = (d.inAdjacency.map fun entry => entry.2.length).max?.getD 0 := by
  rw [inAdjacency, map_length_adjacency]
  simp only [farEnds_target_source, List.length_map]
  exact Statistics.largest_eq _

/-- The isolated nodes are those whose entries are empty both ways. -/
theorem isolatedNodes_eq (d : Diagram) :
    d.statistics.isolatedNodes = d.ids.countP fun id =>
      d.outAdjacency.lookup id = some [] ∧ d.inAdjacency.lookup id = some [] := by
  have hisolated : d.statistics.isolatedNodes = (List.finRange d.nodes.length).countP fun v =>
      (d.arcs.successors v).length == 0 && (d.arcs.predecessors v).length == 0 := by
    rw [List.countP_eq_length_filter]
    rfl
  rw [hisolated, ← map_idAt_finRange, List.countP_map]
  refine List.countP_congr fun v _ => ?_
  have hid := idAt_mem_ids v
  simp only [Function.comp_apply, outAdjacency, inAdjacency, lookup_adjacency hid,
    farEnds_source_target, farEnds_target_source]
  simp

/-! ## Both computations agree -/

/-- **The adjacency by id is the adjacency by position.** For any nodes `u` and `v`, at these positions:
the lists by id are the successors of `u` and the predecessors of `v`, in the order of the edges;
`v` occurs in the list of `u` as often as `u` in that of `v`, once for each edge from `u` to `v`. All
lists together count every edge that does not dangle. The maximal degrees and the isolated nodes of
the statistics are those of these lists. -/
theorem adjacency_isConsistent (d : Diagram) :
    (d.outAdjacency.map Prod.fst = d.ids ∧ d.inAdjacency.map Prod.fst = d.ids) ∧
      (∀ u v : Fin d.nodes.length, ∃ targets sources,
        (d.outAdjacency.lookup (d.idAt u) = some targets ∧
          d.inAdjacency.lookup (d.idAt v) = some sources) ∧
        (targets.count (d.idAt v) = (d.edgesBetween (d.idAt u) (d.idAt v)).length ∧
          sources.count (d.idAt u) = (d.edgesBetween (d.idAt u) (d.idAt v)).length) ∧
        (targets = (d.edges.filter fun e => e.source = d.idAt u ∧ e.target ∈ d.ids).map Edge.target ∧
          sources =
            (d.edges.filter fun e => e.target = d.idAt v ∧ e.source ∈ d.ids).map Edge.source) ∧
        targets = (d.arcs.successors u).map d.idAt ∧
          sources = (d.arcs.predecessors v).map d.idAt) ∧
      ((d.outAdjacency.map fun entry => entry.2.length).sum + d.danglingEdges.length =
          d.edges.length ∧
        (d.inAdjacency.map fun entry => entry.2.length).sum + d.danglingEdges.length =
          d.edges.length) ∧
      d.statistics.maxOutDegree = (d.outAdjacency.map fun entry => entry.2.length).max?.getD 0 ∧
        d.statistics.maxInDegree = (d.inAdjacency.map fun entry => entry.2.length).max?.getD 0 ∧
        d.statistics.isolatedNodes = d.ids.countP fun id =>
          d.outAdjacency.lookup id = some [] ∧ d.inAdjacency.lookup id = some [] := by
  refine ⟨⟨map_fst_adjacency, map_fst_adjacency⟩, fun u v => ?_, ⟨?_, ?_⟩, maxOutDegree_eq d,
    maxInDegree_eq d, isolatedNodes_eq d⟩
  · have hu := idAt_mem_ids u
    have hv := idAt_mem_ids v
    refine ⟨_, _, ⟨lookup_adjacency hu, lookup_adjacency hv⟩, ⟨?_, ?_⟩, ⟨?_, ?_⟩,
      farEnds_source_target u, farEnds_target_source v⟩
    · rw [length_edgesBetween]
      exact count_farEnds fun e hsource htarget => connects_iff.2 ⟨hsource ▸ hu, htarget ▸ hv⟩
    · rw [length_edgesBetween,
        count_farEnds fun e htarget hsource => connects_iff.2 ⟨hsource ▸ hu, htarget ▸ hv⟩]
      simp only [Bool.and_comm]
    · exact farEnds_eq hu fun _ => connects_iff
    · exact farEnds_eq hv fun _ => connects_iff.trans and_comm
  · exact sum_length_adjacency fun e _ h => (connects_iff.1 h).1
  · exact sum_length_adjacency fun e _ h => (connects_iff.1 h).2

end Diagram

end Flowchart
