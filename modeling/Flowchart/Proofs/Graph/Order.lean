import Flowchart.Proofs.Graph.Paths
import Flowchart.Proofs.Graph.Placement

/-!
# The topological order is complete and canonical

All nodes of an acyclic diagram are placed, and **the order is the smallest one** by the positions of
the nodes in which every connected edge points forward. In a cyclic diagram some node is stuck. Then
the walk back from the first of them closes, without ever missing a predecessor, with **an edge whose
target leads back to its source**.
-/

namespace Flowchart.Diagram

variable {d : Diagram} {order : List String}

/-! ## Orders of ids -/

/-- No node leads to itself. -/
def IsAcyclic (d : Diagram) : Prop := ∀ id, ¬ d.Leads d.edges id id

/-- All ids, each once, in an order in which every connected edge points forward. -/
structure IsOrdering (d : Diagram) (order : List String) : Prop where
  perm : order.Perm d.ids
  forward : ∀ u v, d.Joins d.edges u v → order.idxOf u < order.idxOf v

/-- In an order in which edges point forward, they do not lead back. -/
theorem IsOrdering.isAcyclic (h : d.IsOrdering order) : d.IsAcyclic := by
  intro id hleads
  have hforward : ∀ u v, d.Leads d.edges u v → order.idxOf u < order.idxOf v := by
    intro u v hleads
    induction hleads with
    | single hjoins => exact h.forward _ _ hjoins
    | tail _ hjoins ih => exact lt_trans ih (h.forward _ _ hjoins)
  exact absurd (hforward id id hleads) (lt_irrefl _)

/-- The ids in the order of all positions. -/
theorem map_idAt_finRange (d : Diagram) : (List.finRange d.nodes.length).map d.idAt = d.ids := by
  rw [ids]
  refine List.ext_getElem (by simp) fun i _ _ => ?_
  simp [idAt]

/-- A forward order of all positions orders the ids. -/
theorem isOrdering_map_idAt {vs : List (Fin d.nodes.length)} (h : d.arcs.IsForward vs)
    (hall : ∀ v, v ∈ vs) : d.IsOrdering (vs.map d.idAt) := by
  constructor
  · rw [← map_idAt_finRange]
    refine List.Perm.map d.idAt ?_
    rw [List.perm_ext_iff_of_nodup h.nodup (List.nodup_finRange _)]
    exact fun v => ⟨fun _ => List.mem_finRange v, fun _ => hall v⟩
  · intro u v hjoins
    obtain ⟨hu, hv⟩ := hjoins.mem_ids
    obtain ⟨a, ha⟩ := exists_position? hu
    obtain ⟨b, hb⟩ := exists_position? hv
    obtain rfl := position?_eq_some_iff.1 ha
    obtain rfl := position?_eq_some_iff.1 hb
    rw [idxOf_map_idAt, idxOf_map_idAt]
    exact h.idxOf_lt (mem_arcs_iff.2 hjoins) (hall b)

/-- Every ordering of the ids comes from a forward order of all positions. -/
theorem IsOrdering.exists_isForward (h : d.IsOrdering order) :
    ∃ vs, vs.map d.idAt = order ∧ d.arcs.IsForward vs ∧ vs.length = d.nodes.length := by
  obtain ⟨vs, rfl⟩ := exists_map_idAt fun id hid => h.perm.mem_iff.1 hid
  have hnodup : (vs.map d.idAt).Nodup := h.perm.nodup_iff.2 d.nodup
  refine ⟨vs, rfl, Arcs.isForward_of_idxOf_lt (hnodup.of_map d.idAt) (fun v => ?_) ?_, ?_⟩
  · have hmem : d.idAt v ∈ vs.map d.idAt := h.perm.mem_iff.2 (idAt_mem_ids v)
    obtain ⟨w, hw, hid⟩ := List.mem_map.1 hmem
    rwa [← idAt_injective hid]
  · intro u v harc
    have hlt := h.forward _ _ (mem_arcs_iff.1 harc)
    rwa [idxOf_map_idAt, idxOf_map_idAt] at hlt
  · rw [← List.length_map d.idAt, h.perm.length_eq, ids, List.length_map]

/-- The order of lists of ids by position is that of the positions. -/
theorem map_idxOf_le {vs ws : List (Fin d.nodes.length)} (h : vs ≤ ws) :
    (vs.map d.idAt).map d.ids.idxOf ≤ (ws.map d.idAt).map d.ids.idxOf := by
  have hval : ∀ us : List (Fin d.nodes.length),
      (us.map d.idAt).map d.ids.idxOf = us.map Fin.val := by
    intro us
    rw [List.map_map]
    exact List.map_congr_left fun v _ => idxOf_idAt v
  rw [hval, hval]
  rcases eq_or_lt_of_le h with rfl | hlt
  · exact le_refl _
  · exact le_of_lt (List.map_lt (f := Fin.val) (fun _ _ hlt => hlt) hlt)

/-! ## The two outcomes -/

/-- Without a stuck node all nodes are ordered. -/
theorem topologicalSort_eq_ok
    (h : (List.finRange d.nodes.length).find? d.arcs.isStuck = none) :
    d.topologicalSort = .ok (d.arcs.placementOrder.map d.idAt) ∧
      d.IsOrdering (d.arcs.placementOrder.map d.idAt) := by
  constructor
  · unfold topologicalSort
    dsimp only
    split
    · rfl
    · next v hv => exact absurd (h.symm.trans hv) (by simp)
  · refine isOrdering_map_idAt d.arcs.isGreedy_placementOrder.isForward fun v => ?_
    have hfree := List.find?_eq_none.1 h v (List.mem_finRange v)
    rw [Arcs.isStuck_iff, not_not] at hfree
    exact hfree

/-- With a stuck node the walk back from the first one closes, and the result is its closing arc. -/
theorem topologicalSort_eq_error {first : Fin d.nodes.length}
    (h : (List.finRange d.nodes.length).find? d.arcs.isStuck = some first) :
    ∃ arc, d.arcs.Closes [first] first arc ∧
      d.topologicalSort = .error ⟨d.idAt arc.1, d.idAt arc.2⟩ := by
  refine ⟨d.arcs.closingArc d.arcs.isStuck d.nodes.length [first] first, ?_, ?_⟩
  · exact Arcs.closes_closingArc (List.find?_some h) (List.nodup_singleton first) (by simp)
  · unfold topologicalSort
    dsimp only
    split
    · next hnone => exact absurd (h.symm.trans hnone) (by simp)
    · next v hv =>
      obtain rfl := Option.some.inj (h.symm.trans hv)
      rfl

/-- The closing arc is an edge of the diagram whose target leads back to its source. -/
theorem joins_of_closes {first : Fin d.nodes.length} {arc : Fin d.nodes.length × Fin d.nodes.length}
    (h : d.arcs.Closes [first] first arc) :
    d.Joins d.edges (d.idAt arc.1) (d.idAt arc.2) ∧
      d.Leads d.edges (d.idAt arc.2) (d.idAt arc.1) := by
  obtain ⟨harc, hback⟩ := h.mem_arcs fun w hw => Or.inl (List.mem_singleton.1 hw)
  exact ⟨mem_arcs_iff.1 harc, transGen_arcs_iff.1 hback⟩

/-- **Topological order.** The ids of an acyclic diagram come in an order in which every connected
edge points forward, the lexicographically smallest such order by their positions. A cyclic diagram
is refused with an edge on a cycle: the walk back from the first stuck node, in which every node has
a stuck predecessor, closes with this edge. -/
theorem topologicalSort_isCanonical (d : Diagram) :
    (d.IsAcyclic → ∃ order, d.topologicalSort = .ok order ∧ d.IsOrdering order ∧
        ∀ other, d.IsOrdering other → order.map d.ids.idxOf ≤ other.map d.ids.idxOf) ∧
      (¬ d.IsAcyclic → ∃ first arc, d.arcs.Closes [first] first arc ∧
        d.topologicalSort = .error ⟨d.idAt arc.1, d.idAt arc.2⟩ ∧
        d.Joins d.edges (d.idAt arc.1) (d.idAt arc.2) ∧
        d.isReachable (d.idAt arc.2) (d.idAt arc.1) = true) := by
  cases hfirst : (List.finRange d.nodes.length).find? d.arcs.isStuck with
  | none =>
    obtain ⟨hok, hordering⟩ := topologicalSort_eq_ok hfirst
    refine ⟨fun _ => ⟨_, hok, hordering, fun other hother => ?_⟩, fun hcyclic =>
      absurd hordering.isAcyclic hcyclic⟩
    obtain ⟨vs, rfl, hforward, hlength⟩ := hother.exists_isForward
    refine map_idxOf_le (d.arcs.isGreedy_placementOrder.le hforward ?_)
    rw [hlength, ← List.length_map d.idAt, hordering.perm.length_eq, ids, List.length_map]
  | some first =>
    obtain ⟨arc, hcloses, herror⟩ := topologicalSort_eq_error hfirst
    obtain ⟨hjoins, hback⟩ := joins_of_closes hcloses
    refine ⟨fun hacyclic => absurd (.head hjoins hback) (hacyclic (d.idAt arc.1)), fun _ =>
      ⟨first, arc, hcloses, herror, hjoins, isReachable_iff.2 hback⟩⟩

/-- The way from `a` to `c` over `b` and the shortcut, without the edge back. -/
def shortcut : Diagram := { detour with edges := detour.edges.take 3 }

theorem isOrdering_shortcut : shortcut.IsOrdering ["a", "b", "c"] where
  perm := by decide
  forward := by
    rintro u v ⟨e, he, -, rfl, rfl⟩
    have hall : ∀ e ∈ shortcut.edges,
        ["a", "b", "c"].idxOf e.source < ["a", "b", "c"].idxOf e.target := by decide
    exact hall e he

theorem topologicalSort_isCanonical_detour :
    (shortcut.IsAcyclic ∧ ∃ order, shortcut.topologicalSort = .ok order ∧
        shortcut.IsOrdering order ∧ ∀ other, shortcut.IsOrdering other →
          order.map shortcut.ids.idxOf ≤ other.map shortcut.ids.idxOf) ∧
      (¬ detour.IsAcyclic ∧ ∃ first arc, detour.arcs.Closes [first] first arc ∧
        detour.topologicalSort = .error ⟨detour.idAt arc.1, detour.idAt arc.2⟩ ∧
        detour.Joins detour.edges (detour.idAt arc.1) (detour.idAt arc.2) ∧
        detour.isReachable (detour.idAt arc.2) (detour.idAt arc.1) = true) := by
  have hacyclic : shortcut.IsAcyclic := isOrdering_shortcut.isAcyclic
  have hcyclic : ¬ detour.IsAcyclic := fun h => h "a" (isReachable_iff.1 (by decide +kernel))
  exact ⟨⟨hacyclic, (topologicalSort_isCanonical shortcut).1 hacyclic⟩,
    hcyclic, (topologicalSort_isCanonical detour).2 hcyclic⟩

end Flowchart.Diagram
