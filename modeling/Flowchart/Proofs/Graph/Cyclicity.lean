import Flowchart.Proofs.Graph.Order
import Flowchart.Validation.Rule
import Mathlib.Tactic.TFAE

/-!
# All views of cyclicity agree

A diagram is cyclic when some node leads back to itself. Three algorithms decide it, each in its own
way, and each is compared with this relation alone:

* placing the nodes leaves none over exactly if no node leads to itself;
* the cycle search reports something exactly if some node does, because **a closed walk passes an
  elementary cycle**: its first step, and a simple path back;
* breadth-first search meets its start exactly if the start leads back to itself.

So `hasCycle`, `findCycles`, `topologicalSort`, `statistics`, `isReachable` and the rule against
cycles give one verdict.
-/

namespace Flowchart

/-! ## Orders in which nothing has to move -/

namespace Arcs

variable {n : Nat} {arcs : Arcs n}

/-- Where every arc points forward, taking the vertices as they come is greedy. -/
theorem isGreedy_finRange (h : ∀ u v, (u, v) ∈ arcs → u < v) : arcs.IsGreedy (List.finRange n) := by
  intro before v after hsplit
  have hsorted : (before ++ v :: after).Pairwise (· < ·) := hsplit ▸ List.pairwise_lt_finRange n
  obtain ⟨-, hafter, hbefore⟩ := List.pairwise_append.1 hsorted
  have hmem : ∀ w, w ∈ before ↔ w < v := by
    intro w
    refine ⟨fun hw => hbefore w hw v List.mem_cons_self, fun hlt => ?_⟩
    have hw : w ∈ before ++ v :: after := hsplit ▸ List.mem_finRange w
    rcases List.mem_append.1 hw with hw | hw
    · exact hw
    · rcases List.mem_cons.1 hw with rfl | hw
      · exact absurd hlt (lt_irrefl w)
      · exact absurd ((List.pairwise_cons.1 hafter).1 w hw) (lt_asymm hlt)
  refine ⟨⟨fun hv => lt_irrefl v ((hmem v).1 hv), fun u harc => (hmem u).2 (h u v harc)⟩, ?_⟩
  intro w hw
  exact not_lt.1 fun hlt => hw.1 ((hmem w).2 hlt)

/-- Then the placement goes through the vertices as they come. -/
theorem placementOrder_eq_finRange (h : ∀ u v, (u, v) ∈ arcs → u < v)
    (hall : ∀ v, v ∈ arcs.placementOrder) : arcs.placementOrder = List.finRange n := by
  have hplaced := arcs.isGreedy_placementOrder
  have hrange := isGreedy_finRange h
  have hlength : arcs.placementOrder.length = (List.finRange n).length := by
    refine List.Perm.length_eq ?_
    rw [List.perm_ext_iff_of_nodup hplaced.isForward.nodup (List.nodup_finRange n)]
    exact fun v => ⟨fun _ => List.mem_finRange v, fun _ => hall v⟩
  exact le_antisymm (hplaced.le hrange.isForward hlength) (hrange.le hplaced.isForward hlength.symm)

end Arcs

namespace Diagram

variable {d : Diagram}

/-! ## Placing the nodes -/

/-- **A node is stuck exactly if the diagram is cyclic**, since the walk back from a stuck node
closes. -/
theorem isAcyclic_iff_find?_isStuck :
    d.IsAcyclic ↔ (List.finRange d.nodes.length).find? d.arcs.isStuck = none := by
  constructor
  · intro hacyclic
    cases hfirst : (List.finRange d.nodes.length).find? d.arcs.isStuck with
    | none => rfl
    | some first =>
      obtain ⟨arc, hcloses, -⟩ := topologicalSort_eq_error hfirst
      obtain ⟨hjoins, hback⟩ := joins_of_closes hcloses
      exact absurd (.head hjoins hback) (hacyclic (d.idAt arc.1))
  · intro hnone
    exact (topologicalSort_eq_ok hnone).2.isAcyclic

theorem isAcyclic_iff_forall_placed : d.IsAcyclic ↔ ∀ v, v ∈ d.arcs.placementOrder := by
  rw [isAcyclic_iff_find?_isStuck, List.find?_eq_none]
  simp only [List.mem_finRange, Arcs.isStuck_iff, not_not, forall_const]

/-- Nodes are left over exactly if the diagram is cyclic. -/
theorem hasCycle_iff : d.hasCycle = true ↔ ¬ d.IsAcyclic := by
  rw [isAcyclic_iff_forall_placed, hasCycle, decide_eq_true_iff, not_forall]
  constructor
  · intro hlt
    by_contra hnone
    rw [not_exists] at hnone
    have hle : (List.finRange d.nodes.length).length ≤ d.arcs.placementOrder.length :=
      (List.nodup_finRange _).length_le_of_subset fun v _ => not_not.1 (hnone v)
    rw [List.length_finRange] at hle
    omega
  · rintro ⟨v, hv⟩
    have hlonger : (v :: d.arcs.placementOrder).Nodup :=
      List.nodup_cons.2 ⟨hv, d.arcs.isGreedy_placementOrder.isForward.nodup⟩
    have hcard := hlonger.length_le_card
    rw [Fintype.card_fin, List.length_cons] at hcard
    omega

theorem exists_topologicalSort_eq_error_iff :
    (∃ e, d.topologicalSort = .error e) ↔ ¬ d.IsAcyclic := by
  rw [isAcyclic_iff_find?_isStuck]
  cases hfirst : (List.finRange d.nodes.length).find? d.arcs.isStuck with
  | none => simp [(topologicalSort_eq_ok hfirst).1]
  | some first =>
    obtain ⟨arc, -, herror⟩ := topologicalSort_eq_error hfirst
    simp [herror]

/-- Where every connected edge points forward, the ids are ordered as they stand. -/
theorem topologicalSort_eq_ids
    (h : ∀ u v, d.Joins d.edges u v → d.ids.idxOf u < d.ids.idxOf v) :
    d.topologicalSort = .ok d.ids := by
  have hacyclic : d.IsAcyclic := IsOrdering.isAcyclic ⟨.refl _, h⟩
  have harcs : ∀ u v, (u, v) ∈ d.arcs → u < v := by
    intro u v harc
    have hlt := h _ _ (mem_arcs_iff.1 harc)
    rwa [idxOf_idAt, idxOf_idAt, ← Fin.lt_def] at hlt
  have horder : d.arcs.placementOrder = List.finRange d.nodes.length :=
    Arcs.placementOrder_eq_finRange harcs (isAcyclic_iff_forall_placed.1 hacyclic)
  rw [(topologicalSort_eq_ok (isAcyclic_iff_find?_isStuck.1 hacyclic)).1, horder, map_idAt_finRange]

/-! ## Searching for cycles -/

/-- **A closed walk passes an elementary cycle**: its first step, and a simple path back. -/
theorem Leads.exists_isElementaryCycle {id : String} (h : d.Leads d.edges id id) :
    ∃ cycle, d.IsElementaryCycle cycle ∧ id ∈ cycle := by
  obtain ⟨w, hstep, hback⟩ := Relation.TransGen.head'_iff.1 h
  by_cases hloop : id = w
  · subst hloop
    refine ⟨[id], ?_, List.mem_singleton_self id⟩
    exact ⟨id, [], rfl, List.nodup_singleton id, List.isChain_pair.2 hstep⟩
  · have hwalk : d.Leads d.edges w id :=
      (Relation.reflTransGen_iff_eq_or_transGen.1 hback).resolve_left hloop
    obtain ⟨path, hpath⟩ := hwalk.exists_isSimplePath (Ne.symm hloop)
    obtain ⟨between, rfl⟩ := hpath.exists_between (Ne.symm hloop)
    have hrotated : ([id] ++ w :: between).IsRotated (w :: between ++ [id]) := List.isRotated_append
    refine ⟨id :: w :: between, ?_, List.mem_cons_self⟩
    exact ⟨id, w :: between, rfl, hrotated.nodup_iff.2 hpath.nodup,
      List.isChain_cons_cons.2 ⟨hstep, hpath.joined⟩⟩

/-- The nodes of an elementary cycle lead back to themselves. -/
theorem IsElementaryCycle.leads {cycle : List String} {id : String} (h : d.IsElementaryCycle cycle)
    (hid : id ∈ cycle) : d.Leads d.edges id id := by
  obtain ⟨first, rest, rfl, -, hchain⟩ := h
  -- what is joined step by step leads from every node to every later one
  have hleads : (first :: (rest ++ [first])).Pairwise (Relation.TransGen (d.Joins d.edges)) :=
    List.IsChain.pairwise (hchain.imp fun _ _ => .single)
  obtain ⟨hfirst, hrest⟩ := List.pairwise_cons.1 hleads
  rcases List.mem_cons.1 hid with rfl | hid
  · exact hfirst id (by simp)
  · have hback := (List.pairwise_append.1 hrest).2.2 id hid first (List.mem_singleton_self first)
    exact hback.trans (hfirst id (List.mem_append_left _ hid))

theorem findCycles_ne_nil_iff : d.findCycles ≠ [] ↔ ¬ d.IsAcyclic := by
  rw [IsAcyclic, not_forall_not]
  constructor
  · intro hne
    obtain ⟨cycle, hmem⟩ := List.exists_mem_of_ne_nil _ hne
    have hcycle := (mem_findCycles_iff.1 hmem).1
    obtain ⟨first, rest, rfl, -⟩ := id hcycle
    exact ⟨first, hcycle.leads List.mem_cons_self⟩
  · rintro ⟨id, hleads⟩
    obtain ⟨cycle, hcycle, -⟩ := hleads.exists_isElementaryCycle
    obtain ⟨r, hr, -⟩ := hcycle.exists_mem_findCycles
    exact List.ne_nil_of_mem hr

/-- The rule against cycles reports each cycle that the search finds. -/
theorem check_noCycles_ne_nil_iff : Rule.noCycles.check d ≠ [] ↔ d.findCycles ≠ [] := by
  rw [Ne, Ne, Rule.check, Rule.findings, List.map_eq_nil_iff, List.map_eq_nil_iff]

/-- **All views of cyclicity agree**: what placing the nodes leaves over, what the cycle search
finds, whether the order is refused, what the statistics say, whether some node is reachable from
itself, and what the rule against cycles reports. -/
theorem cyclicity_tfae (d : Diagram) :
    [d.hasCycle = true, d.findCycles ≠ [], ∃ e, d.topologicalSort = .error e,
      d.statistics.hasCycles = true, ∃ id ∈ d.ids, d.isReachable id id = true,
      Rule.noCycles.check d ≠ [], ¬ d.IsAcyclic].TFAE := by
  tfae_have 1 ↔ 7 := hasCycle_iff
  tfae_have 2 ↔ 7 := findCycles_ne_nil_iff
  tfae_have 3 ↔ 7 := exists_topologicalSort_eq_error_iff
  tfae_have 4 ↔ 1 := Iff.rfl
  tfae_have 5 ↔ 7 := by
    rw [IsAcyclic, not_forall_not]
    constructor
    · rintro ⟨id, -, hreach⟩
      exact ⟨id, isReachable_iff.1 hreach⟩
    · rintro ⟨id, hleads⟩
      exact ⟨id, hleads.mem_ids.1, isReachable_iff.2 hleads⟩
  tfae_have 6 ↔ 2 := check_noCycles_ne_nil_iff
  tfae_finish

end Diagram

end Flowchart
