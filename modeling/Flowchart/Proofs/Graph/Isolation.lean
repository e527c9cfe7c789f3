import Flowchart.Proofs.Graph.Extraction
import Flowchart.Proofs.Graph.UniqueReduction

/-!
# Only isolated nodes are removed

Simplifying can also remove the nodes that no connected edge touches. It looks at the edges that the
reduction has kept, and counts along to find the place of a node among them. Yet the reduction never
isolates a node: what an edge touches leads somewhere or is led to, and **the reduction changes
nothing about where the edges lead**. So the nodes that go are those that the diagram itself leaves
isolated, no edge loses an end, and there is nothing left to remove afterwards.
-/

namespace Flowchart.Diagram

open Sheet
open WiredEdge (reduce)

variable {d : Diagram} {e : Edge} {u v id : String}

/-! ## Touched nodes -/

/-- A connected edge starts or ends at the id. -/
def isTouched (d : Diagram) (id : String) : Bool :=
  d.edges.any fun e => d.connects e && (e.source == id || e.target == id)

/-- The id is touched exactly if it is joined with some node, in one direction or the other. -/
theorem isTouched_iff :
    d.isTouched id = true ↔ ∃ other, d.Joins d.edges id other ∨ d.Joins d.edges other id := by
  rw [isTouched, List.any_eq_true]
  constructor
  · rintro ⟨e, he, hends⟩
    rw [Bool.and_eq_true, Bool.or_eq_true, beq_iff_eq, beq_iff_eq] at hends
    rcases hends with ⟨hconnects, hsource | htarget⟩
    · exact ⟨e.target, Or.inl ⟨e, he, hconnects, hsource, rfl⟩⟩
    · exact ⟨e.source, Or.inr ⟨e, he, hconnects, rfl, htarget⟩⟩
  · rintro ⟨other, ⟨e, he, hconnects, hsource, -⟩ | ⟨e, he, hconnects, -, htarget⟩⟩
    · exact ⟨e, he, by simp [hconnects, hsource]⟩
    · exact ⟨e, he, by simp [hconnects, htarget]⟩

/-- **What is touched leads somewhere or is led to.** -/
theorem isTouched_iff_leads :
    d.isTouched id = true ↔ ∃ other, d.Leads d.edges id other ∨ d.Leads d.edges other id := by
  rw [isTouched_iff]
  constructor
  · rintro ⟨other, hjoins | hjoins⟩
    · exact ⟨other, Or.inl (.single hjoins)⟩
    · exact ⟨other, Or.inr (.single hjoins)⟩
  · rintro ⟨other, hleads | hleads⟩
    · obtain ⟨next, hjoins, -⟩ := Relation.TransGen.head'_iff.1 hleads
      exact ⟨next, Or.inl hjoins⟩
    · obtain ⟨last, -, hjoins⟩ := Relation.TransGen.tail'_iff.1 hleads
      exact ⟨last, Or.inr hjoins⟩

/-- **The reduction never isolates a node.** -/
theorem isTouched_simplify (d : Diagram) (id : String) :
    (d.simplify false).isTouched id = d.isTouched id := by
  have hleads : ∀ u v, (d.simplify false).Leads (d.simplify false).edges u v ↔ d.Leads d.edges u v :=
    fun _ _ => leads_reduced
  rw [Bool.eq_iff_iff, isTouched_iff_leads, isTouched_iff_leads]
  simp only [hleads]

/-! ## Counting along -/

/-- A place among the ends of the arcs that were kept is that of a touched node. -/
theorem mem_ends_reduced_iff {i : Fin d.nodes.length} :
    i.val ∈ ((reduce [] d.wiring).filterMap (·.arc?)).flatMap (fun a => [a.1.val, a.2.val]) ↔
      (d.simplify false).isTouched (d.idAt i) = true := by
  have harcs : (reduce [] d.wiring).filterMap (·.arc?) =
      (d.simplify false).edges.filterMap d.arc? := by
    conv_lhs => rw [← map_edge_wired (WiredEdge.reduce_sublist [] d.wiring).subset]
    rw [List.filterMap_map]
    rfl
  rw [harcs, List.mem_flatMap, isTouched_iff]
  constructor
  · rintro ⟨⟨a, b⟩, harc, hi⟩
    have hjoins := mem_filterMap_arc?_iff.1 harc
    rw [List.mem_cons, List.mem_singleton, Fin.val_inj, Fin.val_inj] at hi
    rcases hi with rfl | rfl
    · exact ⟨d.idAt b, Or.inl hjoins⟩
    · exact ⟨d.idAt a, Or.inr hjoins⟩
  · rintro ⟨other, hjoins | hjoins⟩
    · obtain ⟨b, hb⟩ := exists_position? (Joins.mem_ids (d := d) hjoins).2
      obtain rfl := position?_eq_some_iff.1 hb
      exact ⟨(i, b), mem_filterMap_arc?_iff.2 hjoins, List.mem_cons_self⟩
    · obtain ⟨a, ha⟩ := exists_position? (Joins.mem_ids (d := d) hjoins).1
      obtain rfl := position?_eq_some_iff.1 ha
      exact ⟨(a, i), mem_filterMap_arc?_iff.2 hjoins, List.mem_cons_of_mem _ List.mem_cons_self⟩

theorem nodes_simplify_true (d : Diagram) :
    (d.simplify true).nodes = d.nodes.filter fun n => d.isTouched n.id := by
  refine (nodes_retainNodesWith _ _ 0).trans (retained_counting_eq_filter fun i n hn => ?_)
  obtain ⟨hi, rfl⟩ := List.getElem?_eq_some_iff.1 hn
  rw [Nat.zero_add, Bool.eq_iff_iff, List.contains_iff_mem, ← isTouched_simplify]
  exact mem_ends_reduced_iff (i := ⟨i, hi⟩)

/-- **Removing isolated nodes leaves the touched ones**, whose edges the reduction has thinned. -/
theorem simplify_true_eq (d : Diagram) :
    d.simplify true = (d.simplify false).retainNodes fun n => d.isTouched n.id := by
  apply ext_nodes
  · rw [nodes_simplify_true, nodes_retainNodes]
    rfl
  · rfl
  · rfl

/-! ## What is left -/

theorem mem_ids_simplify_true_iff :
    id ∈ (d.simplify true).ids ↔ id ∈ d.ids ∧ d.isTouched id = true := by
  have hids : (d.simplify true).ids = d.ids.filter d.isTouched := by
    rw [ids, ids, nodes_simplify_true, List.filter_map]
    rfl
  rw [hids, List.mem_filter]

/-- **No edge loses an end**: what it connects it touches. -/
theorem connects_simplify_true (he : e ∈ d.edges) : (d.simplify true).connects e = d.connects e := by
  rw [Bool.eq_iff_iff, connects_iff, connects_iff, mem_ids_simplify_true_iff,
    mem_ids_simplify_true_iff]
  constructor
  · exact fun h => ⟨h.1.1, h.2.1⟩
  · rintro ⟨hsource, htarget⟩
    have hjoins : d.Joins d.edges e.source e.target :=
      ⟨e, he, connects_iff.2 ⟨hsource, htarget⟩, rfl, rfl⟩
    exact ⟨⟨hsource, isTouched_iff.2 ⟨e.target, Or.inl hjoins⟩⟩,
      htarget, isTouched_iff.2 ⟨e.source, Or.inr hjoins⟩⟩

theorem edges_simplify_true (d : Diagram) : (d.simplify true).edges = (d.simplify false).edges := by
  rw [simplify_true_eq]
  rfl

theorem edges_simplify_subset (d : Diagram) : (d.simplify false).edges ⊆ d.edges := by
  have hsubset := ((WiredEdge.reduce_sublist [] d.wiring).map (·.edge)).subset
  rwa [List.nil_append, map_edge_wiring] at hsubset

theorem danglingEdges_simplify_true (d : Diagram) :
    (d.simplify true).danglingEdges = d.danglingEdges := by
  rw [← d.danglingEdges_simplify, danglingEdges, edges_simplify_true]
  refine List.filter_congr fun e he => ?_
  rw [connects_simplify_true (d.edges_simplify_subset he)]
  rfl

/-- What was joined by an edge that the reduction has kept stays joined. -/
theorem joins_simplify_true_iff :
    (d.simplify true).Joins (d.simplify true).edges u v ↔
      (d.simplify false).Joins (d.simplify false).edges u v := by
  rw [edges_simplify_true]
  refine exists_congr fun e => and_congr_right fun he => ?_
  rw [connects_simplify_true (d.edges_simplify_subset he)]
  rfl

/-- What was touched stays touched. -/
theorem isTouched_simplify_true (d : Diagram) (id : String) :
    (d.simplify true).isTouched id = d.isTouched id := by
  rw [← d.isTouched_simplify, Bool.eq_iff_iff, isTouched_iff, isTouched_iff]
  simp only [joins_simplify_true_iff]

/-- Where the other edges never join the ends of an edge, the reduction drops nothing. -/
theorem simplify_eq_self
    (h : ∀ before e after, d.edges = before ++ e :: after →
      ¬ d.Leads (before ++ after) e.source e.target) : d.simplify false = d := by
  have hsettled : WiredEdge.Settled ([] ++ d.wiring) [] := by
    intro before w after hsplit
    obtain ⟨edges, later, hedges, rfl, hlater⟩ := List.map_eq_append_iff.1 hsplit
    obtain ⟨e, rest, rfl, rfl, rfl⟩ := List.map_eq_cons_iff.1 hlater
    have hno := h edges e rest hedges
    rw [← isRedundant_wire_iff, List.map_append, Bool.not_eq_true] at hno
    rw [List.append_nil]
    exact hno
  refine ext_nodes rfl ?_ rfl
  rw [simplify_eq, WiredEdge.reduce_eq_append hsettled, List.nil_append, map_edge_wiring]

/-- The reduction has nothing left to do after the isolated nodes are gone. -/
theorem simplify_simplify_true (d : Diagram) :
    (d.simplify true).simplify false = d.simplify true := by
  apply simplify_eq_self
  intro before e after hsplit hleads
  rw [edges_simplify_true] at hsplit
  have hother : d.Leads (before ++ after) e.source e.target := by
    refine Relation.TransGen.mono ?_ _ _ hleads
    rintro u v ⟨f, hf, hconnects, hends⟩
    have hmem : f ∈ (d.simplify false).edges := by
      rw [hsplit, List.mem_append, List.mem_cons]
      exact (List.mem_append.1 hf).imp_right Or.inr
    rw [connects_simplify_true (d.edges_simplify_subset hmem)] at hconnects
    exact ⟨f, hf, hconnects, hends⟩
  exact not_leads_others hsplit (connects_iff.2 hother.mem_ids) hother

/-- Keeping every node changes nothing. -/
theorem retainNodes_eq_self {keep : Node → Bool} (h : ∀ n ∈ d.nodes, keep n = true) :
    d.retainNodes keep = d := by
  refine ext_nodes ?_ rfl rfl
  rw [nodes_retainNodes, List.filter_eq_self.2 h]

/-- **Only isolated nodes are removed.** Removing isolated nodes leaves the edges of the
simplification and, unchanged and in order, exactly the nodes that a connected edge of the diagram
itself touches; for the reduction isolates no node. So an edge dangles afterwards exactly if it
dangled before, and doing the same again changes nothing. -/
theorem simplify_removesIsolated (d : Diagram) :
    (d.simplify true).edges = (d.simplify false).edges ∧
      (d.simplify true).nodes = d.nodes.filter (fun n => d.isTouched n.id) ∧
      (d.simplify true).metadata = d.metadata ∧
      (∀ id, (d.simplify false).isTouched id = d.isTouched id) ∧
      (d.simplify true).danglingEdges = d.danglingEdges ∧
      (d.simplify true).simplify true = d.simplify true := by
  refine ⟨d.edges_simplify_true, d.nodes_simplify_true, rfl, d.isTouched_simplify,
    d.danglingEdges_simplify_true, ?_⟩
  · rw [simplify_true_eq (d.simplify true), simplify_simplify_true]
    apply retainNodes_eq_self
    intro n hn
    rw [isTouched_simplify_true]
    exact (mem_ids_simplify_true_iff.1 (List.mem_map_of_mem hn)).2

/-- A lone loop keeps its node; an edge to no node does not keep the node where it starts. -/
example : ((Diagram.of [{ id := "loop", label := "" }, { id := "start", label := "" }]
    [{ source := "loop", target := "loop" }, { source := "start", target := "ghost" }] .empty
    (by decide)).simplify true).ids = ["loop"] := by decide +kernel

end Flowchart.Diagram
