import Flowchart.Graph.Reachability
import Flowchart.Proofs.Diagram
import Flowchart.Proofs.Graph.Search

/-!
# Where connected edges lead

`Diagram.Leads d edges` is the relation between ids of which the algorithms on positions speak: one
or more of these edges, each with both ends in the diagram, lead from one node to another. Ids and
positions correspond because ids are distinct, so **a node is reachable exactly if the edges lead to
it**.
-/

namespace Flowchart

variable {n : Nat}

/-! ## Arcs -/

/-- There is fuel for every vertex and the start. -/
theorem Arcs.card_le_fuel : 1 + Fintype.card (Fin n) ≤ n + 1 := by
  rw [Fintype.card_fin, Nat.add_comm]

/-- What can be reached along arcs is what one or more of them lead to. -/
theorem Arcs.mem_reachable_iff {arcs : Arcs n} {u v : Fin n} :
    v ∈ arcs.reachable u ↔ Relation.TransGen (fun a b => (a, b) ∈ arcs) u v := by
  have hstep : (fun a b => b ∈ arcs.successors a) = fun a b => (a, b) ∈ arcs := by
    funext a b
    exact propext Arcs.mem_successors
  rw [reachable, Search.mem_explore_iff card_le_fuel, Search.exists_walk_iff, hstep]

namespace Diagram

open Sheet

variable {d : Diagram}

/-! ## Positions and ids -/

theorem idAt_mem_ids (v : Fin d.nodes.length) : d.idAt v ∈ d.ids :=
  List.mem_map_of_mem (List.getElem_mem v.isLt)

theorem idAt_injective : Function.Injective d.idAt := by
  intro u v h
  have hnodup := d.nodup
  rw [List.nodup_iff_injective_getElem] at hnodup
  have hcast : (⟨u, by simp⟩ : Fin (d.nodes.map Node.id).length) = ⟨v, by simp⟩ := by
    apply hnodup
    simpa [idAt] using h
  exact Fin.ext (by simpa using hcast)

/-- A position is found by its id. -/
theorem position?_eq_some_iff {id : String} {v : Fin d.nodes.length} :
    d.position? id = some v ↔ d.idAt v = id := by
  have hkey : ∀ w : Fin d.slots.length, (d.slots.get w).1 = d.idAt (w.cast d.length_nodes.symm) := by
    intro w
    rw [d.keyed.key_eq_id _ (List.get_mem d.slots w)]
    exact congrArg Node.id (List.getElem_map Prod.snd).symm
  rw [Sheet.position?, Option.map_eq_some_iff]
  simp only [List.findFinIdx?_eq_some_iff, decide_eq_true_eq]
  constructor
  · rintro ⟨w, ⟨hw, -⟩, rfl⟩
    rw [← hkey]
    exact hw
  · intro h
    have hv : (d.slots.get (v.cast d.length_nodes)).1 = id := by
      rw [hkey]
      exact h
    refine ⟨v.cast d.length_nodes, ⟨hv, fun w hw hid => ?_⟩, rfl⟩
    have hsame : d.idAt (w.cast d.length_nodes.symm) = d.idAt v := by rw [← hkey, h]; exact hid
    have hplace := congrArg Fin.val (idAt_injective hsame)
    exact absurd hplace (Nat.ne_of_lt hw)

theorem exists_position? {id : String} (h : id ∈ d.ids) : ∃ v, d.position? id = some v := by
  obtain ⟨node, hnode, rfl⟩ := List.mem_map.1 h
  obtain ⟨i, hi, rfl⟩ := List.mem_iff_getElem.1 hnode
  exact ⟨⟨i, hi⟩, position?_eq_some_iff.2 rfl⟩

theorem position?_eq_none_iff {id : String} : d.position? id = none ↔ id ∉ d.ids := by
  constructor
  · intro hnone hid
    obtain ⟨v, hv⟩ := exists_position? hid
    exact absurd (hnone.symm.trans hv) (by simp)
  · intro hid
    rw [Option.eq_none_iff_forall_ne_some]
    intro v hv
    exact hid (position?_eq_some_iff.1 hv ▸ idAt_mem_ids v)

theorem connects_iff {e : Edge} : d.connects e = true ↔ e.source ∈ d.ids ∧ e.target ∈ d.ids := by
  rw [connects, Bool.and_eq_true, contains_iff_mem_ids, contains_iff_mem_ids]

/-- The arc of an edge joins the positions of its ends. -/
theorem arc?_eq_some_iff {e : Edge} {u v : Fin d.nodes.length} :
    d.arc? e = some (u, v) ↔ d.idAt u = e.source ∧ d.idAt v = e.target := by
  rw [← position?_eq_some_iff, ← position?_eq_some_iff, arc?]
  cases d.position? e.source <;> cases d.position? e.target <;> simp

/-- An edge has an arc exactly if it connects two nodes. -/
theorem arc?_eq_none_iff {e : Edge} : d.arc? e = none ↔ d.connects e = false := by
  rw [← Bool.not_eq_true, connects_iff, Option.eq_none_iff_forall_ne_some]
  constructor
  · rintro hnone ⟨hsource, htarget⟩
    obtain ⟨u, hu⟩ := exists_position? hsource
    obtain ⟨v, hv⟩ := exists_position? htarget
    exact hnone (u, v) (arc?_eq_some_iff.2
      ⟨position?_eq_some_iff.1 hu, position?_eq_some_iff.1 hv⟩)
  · rintro hno ⟨u, v⟩ harc
    obtain ⟨hsource, htarget⟩ := arc?_eq_some_iff.1 harc
    exact hno ⟨hsource ▸ idAt_mem_ids u, htarget ▸ idAt_mem_ids v⟩

/-- **Neighbours by position are neighbours by id.** The arcs whose near end is `v` have the far ends
that the connected edges have whose near end is the id at `v`, in the same order. -/
theorem map_idAt_filterMap_arcs {nearAt farAt : Fin d.nodes.length × Fin d.nodes.length → Fin d.nodes.length}
    {near far : Edge → String} (hnear : ∀ e a, d.arc? e = some a → d.idAt (nearAt a) = near e)
    (hfar : ∀ e a, d.arc? e = some a → d.idAt (farAt a) = far e) (v : Fin d.nodes.length) :
    (d.arcs.filterMap fun a => if nearAt a = v then some (farAt a) else none).map d.idAt =
      (d.edges.filter fun e => d.connects e && near e == d.idAt v).map far := by
  rw [arcs, List.filterMap_filterMap, List.map_filterMap, ← List.filterMap_eq_map,
    List.filterMap_filter]
  refine List.filterMap_congr fun e _ => ?_
  cases harc : d.arc? e with
  | none =>
    rw [arc?_eq_none_iff.1 harc]
    rfl
  | some a =>
    have hconnects : d.connects e = true := by
      rw [← Bool.not_eq_false, ← arc?_eq_none_iff, harc]
      simp
    have hsame : near e = d.idAt v ↔ nearAt a = v := by
      rw [← hnear e a harc]
      exact idAt_injective.eq_iff
    by_cases h : nearAt a = v
    · simp [hconnects, h, hsame.2 h, hfar e a harc]
    · have hne : near e ≠ d.idAt v := fun hid => h (hsame.1 hid)
      simp [hconnects, h, hne]

/-! ## Edges that lead somewhere -/

/-- One of these edges joins two nodes. -/
def Joins (d : Diagram) (edges : List Edge) (u v : String) : Prop :=
  ∃ e ∈ edges, d.connects e = true ∧ e.source = u ∧ e.target = v

instance (d : Diagram) (edges : List Edge) (u v : String) : Decidable (d.Joins edges u v) :=
  inferInstanceAs (Decidable (∃ e ∈ edges, d.connects e = true ∧ e.source = u ∧ e.target = v))

/-- One or more of these edges, one after the other, lead from a node to a node. -/
def Leads (d : Diagram) (edges : List Edge) : String → String → Prop :=
  Relation.TransGen (d.Joins edges)

/-- The arcs of some edges are the joined pairs of positions. -/
theorem mem_filterMap_arc?_iff {edges : List Edge} {u v : Fin d.nodes.length} :
    (u, v) ∈ edges.filterMap d.arc? ↔ d.Joins edges (d.idAt u) (d.idAt v) := by
  rw [List.mem_filterMap]
  constructor
  · rintro ⟨e, he, harc⟩
    obtain ⟨hsource, htarget⟩ := arc?_eq_some_iff.1 harc
    refine ⟨e, he, connects_iff.2 ⟨?_, ?_⟩, hsource.symm, htarget.symm⟩
    · exact hsource ▸ idAt_mem_ids u
    · exact htarget ▸ idAt_mem_ids v
  · rintro ⟨e, he, -, hsource, htarget⟩
    exact ⟨e, he, arc?_eq_some_iff.2 ⟨hsource.symm, htarget.symm⟩⟩

/-- Arcs between positions are edges that join ids. -/
theorem mem_arcs_iff {u v : Fin d.nodes.length} :
    (u, v) ∈ d.arcs ↔ d.Joins d.edges (d.idAt u) (d.idAt v) :=
  mem_filterMap_arc?_iff

/-- What an edge joins are nodes. -/
theorem Joins.mem_ids {edges : List Edge} {u v : String} (h : d.Joins edges u v) :
    u ∈ d.ids ∧ v ∈ d.ids := by
  obtain ⟨e, -, hconnects, rfl, rfl⟩ := h
  exact connects_iff.1 hconnects

/-- The arcs of some edges lead where the edges lead. -/
theorem transGen_arcs_iff {edges : List Edge} {u v : Fin d.nodes.length} :
    Relation.TransGen (fun a b => (a, b) ∈ edges.filterMap d.arc?) u v ↔
      d.Leads edges (d.idAt u) (d.idAt v) := by
  constructor
  · exact Relation.TransGen.lift d.idAt (fun _ _ => mem_filterMap_arc?_iff.1) u v
  -- every id on the way is the id at some position
  · intro h
    generalize hid : d.idAt v = id at h
    induction h generalizing v with
    | single hstep =>
      subst hid
      exact .single (mem_filterMap_arc?_iff.2 hstep)
    | tail _ hstep ih =>
      subst hid
      obtain ⟨e, he, hconnects, rfl, htarget⟩ := hstep
      obtain ⟨w, hw⟩ := exists_position? (connects_iff.1 hconnects).1
      rw [position?_eq_some_iff] at hw
      refine (ih hw).tail (mem_filterMap_arc?_iff.2 ?_)
      exact ⟨e, he, hconnects, hw.symm, htarget⟩

/-- What edges lead to and from is a node. -/
theorem Leads.mem_ids {edges : List Edge} {u v : String} (h : d.Leads edges u v) :
    u ∈ d.ids ∧ v ∈ d.ids := by
  induction h with
  | single hstep => exact hstep.mem_ids
  | tail _ hstep ih => exact ⟨ih.1, hstep.mem_ids.2⟩

/-- **A node is reachable exactly if the edges of the diagram lead to it.** -/
theorem isReachable_iff {u v : String} : d.isReachable u v = true ↔ d.Leads d.edges u v := by
  unfold isReachable
  split
  · next a b ha hb =>
    rw [position?_eq_some_iff] at ha hb
    rw [List.contains_iff_mem, Arcs.mem_reachable_iff, ← ha, ← hb]
    exact transGen_arcs_iff
  · next hnone =>
    constructor
    · exact fun h => absurd h Bool.false_ne_true
    · intro h
      obtain ⟨hu, hv⟩ := h.mem_ids
      obtain ⟨a, ha⟩ := exists_position? hu
      obtain ⟨b, hb⟩ := exists_position? hv
      exact absurd hb (hnone a b ha)

/-- The reachable nodes are those to which the edges lead. -/
theorem mem_reachable_iff {u v : String} : v ∈ d.reachable u ↔ d.Leads d.edges u v := by
  rw [← isReachable_iff]
  unfold reachable isReachable
  cases hu : d.position? u with
  | none => simp
  | some a =>
    cases hv : d.position? v with
    | none =>
      have hv : ∀ b, d.idAt b ≠ v := fun b hb => by simp [position?_eq_some_iff.2 hb] at hv
      simp [hv]
    | some b =>
      rw [position?_eq_some_iff] at hv
      simp [← hv, idAt_injective.eq_iff]

end Diagram

end Flowchart
