import Flowchart.Graph.Paths
import Flowchart.Proofs.Graph.Leads
import Flowchart.Proofs.Graph.SimplePaths
import Mathlib.Data.List.Rotate
import Mathlib.Data.List.Lex
import Mathlib.Data.Finset.Max

/-!
# The enumeration of elementary cycles is exact

A cycle can be written down from any of its nodes; the one that comes first in the diagram gives
every cycle one spelling. `cyclesFrom root` lists the cycles whose earliest vertex is `root`, so

* a list of ids is reported exactly if it is an elementary cycle that starts with its earliest node;
* every elementary cycle is a rotation of exactly one that is reported;
* the reported cycles increase strictly in the lexicographic order of their positions.
-/

namespace Flowchart

/-! ## The order of the list -/

section Order

variable {n : Nat}

/-- `lexLe` is the lexicographic order of lists. -/
theorem lexLe_iff {a b : List (Fin n)} : lexLe a b = true ↔ a = b ∨ a < b := by
  induction a generalizing b with
  | nil => cases b <;> simp [lexLe]
  | cons x a ih =>
    cases b with
    | nil => simp [lexLe]
    | cons y b =>
      rw [lexLe, List.cons_lt_cons_iff, List.cons_eq_cons, Bool.or_eq_true, Bool.and_eq_true,
        decide_eq_true_eq, beq_iff_eq, ih]
      tauto

/-- A sorted list without repetition increases strictly. -/
theorem pairwise_lt_mergeSort {cycles : List (List (Fin n))} (h : cycles.Nodup) :
    (cycles.mergeSort lexLe).Pairwise (· < ·) := by
  have hsorted : (cycles.mergeSort lexLe).Pairwise fun a b => lexLe a b = true := by
    apply List.pairwise_mergeSort
    · intro a b c hab hbc
      rw [lexLe_iff, ← le_iff_eq_or_lt] at hab hbc ⊢
      exact le_trans hab hbc
    · intro a b
      rw [Bool.or_eq_true, lexLe_iff, lexLe_iff, ← le_iff_eq_or_lt, ← le_iff_eq_or_lt]
      exact le_total a b
  have hnodup : (cycles.mergeSort lexLe).Nodup := (List.mergeSort_perm cycles lexLe).nodup_iff.2 h
  refine (hsorted.and hnodup).imp fun {a b} hab => ?_
  exact (lexLe_iff.1 hab.1).resolve_left hab.2

end Order

/-! ## Cycles of positions -/

namespace Arcs

variable {n : Nat} {arcs : Arcs n} {root v w : Fin n}

theorem get_neighbours (arcs : Arcs n) (v : Fin n) :
    arcs.neighbours.get v = Search.fresh [] (arcs.successors v) := by
  rw [neighbours, Vector.get]
  exact Array.getElem_ofFn _

/-- The neighbours of a vertex are the targets of its arcs. -/
theorem mem_neighbours : w ∈ arcs.neighbours.get v ↔ (v, w) ∈ arcs := by
  rw [get_neighbours, Search.mem_fresh, mem_successors]
  simp

theorem nodup_neighbours (arcs : Arcs n) (v : Fin n) : (arcs.neighbours.get v).Nodup := by
  rw [get_neighbours]
  exact Search.nodup_fresh _ _

/-- A chain all of whose later members satisfy a condition. -/
theorem isChain_and_iff {α : Type} {R : α → α → Prop} {p : α → Prop} {a : α} {l : List α} :
    (a :: l).IsChain (fun a b => R a b ∧ p b) ↔ (a :: l).IsChain R ∧ ∀ b ∈ l, p b := by
  induction l generalizing a with
  | nil => simp
  | cons b l ih =>
    rw [List.isChain_cons_cons, List.isChain_cons_cons, ih, List.forall_mem_cons]
    tauto

/-- **The cycles found from a root** are those on which every other vertex comes later. -/
theorem mem_cyclesFrom_iff {cycle : List (Fin n)} :
    cycle ∈ arcs.cyclesFrom root ↔
      ∃ rest, cycle = root :: rest ∧ (root :: rest).Nodup ∧ (∀ w ∈ rest, root < w) ∧
        (root :: (rest ++ [root])).IsChain (fun a b => (a, b) ∈ arcs) := by
  have hnext : (fun a b => b ∈ (arcs.neighbours.get a).filter fun w => root ≤ w) =
      fun a b => (a, b) ∈ arcs ∧ root ≤ b := by
    funext a b
    rw [List.mem_filter, mem_neighbours, decide_eq_true_eq]
  rw [cyclesFrom, List.mem_map]
  constructor
  · rintro ⟨path, hpath, rfl⟩
    obtain ⟨rest, rfl, hchain, hnodup, havoid, -⟩ := Search.mem_simplePaths_iff.1 hpath
    rw [hnext, isChain_and_iff] at hchain
    refine ⟨rest, ?_, ?_, ?_, hchain.1⟩
    · rw [← List.cons_append, List.dropLast_concat]
    · exact List.nodup_cons.2 ⟨fun h => (havoid root h).1 rfl, hnodup⟩
    · intro w hw
      have hle : root ≤ w := hchain.2 w (List.mem_append_left _ hw)
      exact lt_of_le_of_ne hle (havoid w hw).1.symm
  · rintro ⟨rest, rfl, hnodup, hlater, hchain⟩
    refine ⟨root :: (rest ++ [root]), Search.mem_simplePaths_iff.2 ⟨rest, rfl, ?_, ?_, ?_, ?_⟩, ?_⟩
    · rw [hnext, isChain_and_iff]
      refine ⟨hchain, fun w hw => ?_⟩
      rcases List.mem_append.1 hw with hw | hw
      · exact (hlater w hw).le
      · exact (List.mem_singleton.1 hw).ge
    · exact (List.nodup_cons.1 hnodup).2
    · intro w hw
      have hne : w ≠ root := (hlater w hw).ne'
      exact ⟨hne, by simpa using hne⟩
    · have hcard := hnodup.length_le_card
      rw [Fintype.card_fin, List.length_cons] at hcard
      omega
    · rw [← List.cons_append, List.dropLast_concat]

/-- No cycle is listed twice from the same root. -/
theorem nodup_cyclesFrom (arcs : Arcs n) (root : Fin n) : (arcs.cyclesFrom root).Nodup := by
  rw [cyclesFrom]
  refine List.Nodup.map_on ?_ (Search.nodup_simplePaths (fun v => ?_) n [root] root)
  -- all paths end with the root
  · intro path hpath path' hpath' h
    obtain ⟨rest, rfl, -⟩ := Search.mem_simplePaths_iff.1 hpath
    obtain ⟨rest', rfl, -⟩ := Search.mem_simplePaths_iff.1 hpath'
    rw [← List.cons_append, ← List.cons_append, List.dropLast_concat, List.dropLast_concat] at h
    rw [← List.cons_append, ← List.cons_append, h]
  · exact (arcs.nodup_neighbours v).filter _

/-- A cycle is listed from some root. -/
theorem mem_cycles_iff {cycle : List (Fin n)} :
    cycle ∈ arcs.cycles ↔ ∃ root, cycle ∈ arcs.cyclesFrom root := by
  simp [cycles]

/-- **The cycles of positions increase strictly.** -/
theorem pairwise_lt_cycles (arcs : Arcs n) : arcs.cycles.Pairwise (· < ·) := by
  refine pairwise_lt_mergeSort (List.nodup_flatMap.2 ⟨fun root _ => arcs.nodup_cyclesFrom root, ?_⟩)
  refine (List.nodup_finRange n).imp fun {a b} hab => ?_
  intro cycle ha hb
  obtain ⟨rest, rfl, -⟩ := mem_cyclesFrom_iff.1 ha
  obtain ⟨rest', h, -⟩ := mem_cyclesFrom_iff.1 hb
  exact hab (List.head_eq_of_cons_eq h)

end Arcs

/-! ## Cycles of ids -/

namespace Diagram

/-- A sequence of distinct ids in which each is joined to the next by an edge between nodes, and the
last to the first. A node with an edge to itself is one. -/
def IsElementaryCycle (d : Diagram) (cycle : List String) : Prop :=
  ∃ first rest, cycle = first :: rest ∧ (first :: rest).Nodup ∧
    (first :: (rest ++ [first])).IsChain (d.Joins d.edges)

/-- The first id of the sequence is the one that comes first in the diagram. -/
def StartsEarliest (d : Diagram) (cycle : List String) : Prop :=
  ∀ first ∈ cycle.head?, ∀ id ∈ cycle, d.ids.idxOf first ≤ d.ids.idxOf id

variable {d : Diagram} {cycle : List String}

theorem idxOf_idAt (v : Fin d.nodes.length) : d.ids.idxOf (d.idAt v) = v := by
  have hlt : v.val < d.ids.length := by simp [ids]
  have hget : d.ids[v.val] = d.idAt v := by simp [ids, idAt]
  rw [← hget]
  exact d.nodup.idxOf_getElem v.val hlt

theorem mem_ids_of_isChain {ids : List String} {first : String}
    (h : (first :: ids).IsChain (d.Joins d.edges)) : ∀ id ∈ ids, id ∈ d.ids := by
  induction ids generalizing first with
  | nil => simp
  | cons id ids ih =>
    obtain ⟨hjoins, hchain⟩ := List.isChain_cons_cons.1 h
    exact List.forall_mem_cons.2 ⟨hjoins.mem_ids.2, ih hchain⟩

/-- All ids of a cycle are nodes. -/
theorem IsElementaryCycle.mem_ids (h : d.IsElementaryCycle cycle) : ∀ id ∈ cycle, id ∈ d.ids := by
  obtain ⟨first, rest, rfl, -, hchain⟩ := h
  have hrest := mem_ids_of_isChain hchain
  intro id hid
  refine hrest id ?_
  rw [List.mem_append, List.mem_singleton]
  exact (List.mem_cons.1 hid).symm

/-- Ids of nodes are the ids at some positions. -/
theorem exists_map_idAt {ids : List String} (h : ∀ id ∈ ids, id ∈ d.ids) :
    ∃ vs : List (Fin d.nodes.length), vs.map d.idAt = ids := by
  induction ids with
  | nil => exact ⟨[], rfl⟩
  | cons id ids ih =>
    obtain ⟨hid, hids⟩ := List.forall_mem_cons.1 h
    obtain ⟨v, hv⟩ := exists_position? hid
    obtain ⟨vs, rfl⟩ := ih hids
    exact ⟨v :: vs, by rw [List.map_cons, position?_eq_some_iff.1 hv]⟩

/-- Cycles of positions are the elementary cycles of ids that start earliest. -/
theorem map_idAt_mem_findCycles_iff {vs : List (Fin d.nodes.length)} :
    vs ∈ d.arcs.cycles ↔
      d.IsElementaryCycle (vs.map d.idAt) ∧ d.StartsEarliest (vs.map d.idAt) := by
  have hchain : ∀ us : List (Fin d.nodes.length),
      us.IsChain (fun a b => (a, b) ∈ d.arcs) ↔ (us.map d.idAt).IsChain (d.Joins d.edges) := by
    intro us
    simp only [List.isChain_map, mem_arcs_iff]
  rw [Arcs.mem_cycles_iff]
  constructor
  · rintro ⟨root, hmem⟩
    obtain ⟨rest, rfl, hnodup, hlater, harcs⟩ := Arcs.mem_cyclesFrom_iff.1 hmem
    refine ⟨⟨d.idAt root, rest.map d.idAt, rfl, ?_, ?_⟩, ?_⟩
    · exact hnodup.map idAt_injective
    · simpa using (hchain _).1 harcs
    · intro first hfirst id hid
      obtain rfl : d.idAt root = first := by simpa using hfirst
      obtain ⟨w, hw, rfl⟩ := List.mem_map.1 hid
      rw [idxOf_idAt, idxOf_idAt]
      rcases List.mem_cons.1 hw with rfl | hw
      · exact le_refl _
      · exact (hlater w hw).le
  · rintro ⟨⟨first, rest, hvs, hnodup, hjoins⟩, hearliest⟩
    obtain ⟨root, vs, rfl, rfl, rfl⟩ := List.map_eq_cons_iff.1 hvs
    rw [← List.map_cons] at hnodup
    have hdistinct : (root :: vs).Nodup := hnodup.of_map d.idAt
    refine ⟨root, Arcs.mem_cyclesFrom_iff.2 ⟨vs, rfl, hdistinct, ?_, ?_⟩⟩
    · intro w hw
      have hle := hearliest (d.idAt root) rfl (d.idAt w) (by simpa using Or.inr ⟨w, hw, rfl⟩)
      rw [idxOf_idAt, idxOf_idAt] at hle
      refine lt_of_le_of_ne hle fun h => ?_
      exact (List.nodup_cons.1 hdistinct).1 (h ▸ hw)
    · rw [hchain]
      simpa using hjoins

/-- **What is reported**: the elementary cycles that start earliest. -/
theorem mem_findCycles_iff :
    cycle ∈ d.findCycles ↔ d.IsElementaryCycle cycle ∧ d.StartsEarliest cycle := by
  rw [findCycles, List.mem_map]
  constructor
  · rintro ⟨vs, hvs, rfl⟩
    exact map_idAt_mem_findCycles_iff.1 hvs
  · intro h
    obtain ⟨vs, rfl⟩ := exists_map_idAt h.1.mem_ids
    exact ⟨vs, map_idAt_mem_findCycles_iff.2 h, rfl⟩

/-! ## Rotations of a cycle -/

/-- An elementary cycle can be written down from any of its nodes. -/
theorem IsElementaryCycle.rotated {before after : List String} {id : String}
    (h : d.IsElementaryCycle (before ++ id :: after)) :
    d.IsElementaryCycle (id :: after ++ before) := by
  obtain ⟨first, rest, hsplit, hnodup, hchain⟩ := h
  refine ⟨id, after ++ before, rfl, ?_, ?_⟩
  · rw [← hsplit] at hnodup
    exact (List.isRotated_append.nodup_iff).1 hnodup
  · rw [← List.cons_append, ← hsplit, List.append_assoc, List.cons_append,
      List.isChain_split] at hchain
    cases before with
    | nil =>
      obtain ⟨rfl, rfl⟩ := List.cons_eq_cons.1 hsplit
      simpa using hchain.2
    | cons x before =>
      obtain ⟨rfl, -⟩ := List.cons_eq_cons.1 hsplit
      have hjoined : (id :: after ++ x :: (before ++ [id])).IsChain (d.Joins d.edges) := by
        rw [List.isChain_split]
        exact ⟨by simpa using hchain.2, by simpa using hchain.1⟩
      simpa using hjoined

/-- Every elementary cycle has an earliest node to start with. -/
theorem IsElementaryCycle.exists_mem_findCycles (h : d.IsElementaryCycle cycle) :
    ∃ r ∈ d.findCycles, r.IsRotated cycle := by
  have hsome : cycle.toFinset.Nonempty := by
    obtain ⟨first, rest, rfl, -⟩ := h
    exact ⟨first, by simp⟩
  obtain ⟨id, hid, hleast⟩ := cycle.toFinset.exists_min_image d.ids.idxOf hsome
  obtain ⟨before, after, rfl⟩ := List.append_of_mem (List.mem_toFinset.1 hid)
  have hrotated : (id :: after ++ before).IsRotated (before ++ id :: after) := List.isRotated_append
  refine ⟨id :: after ++ before, mem_findCycles_iff.2 ⟨h.rotated, ?_⟩, hrotated⟩
  intro first hfirst other hother
  obtain rfl : id = first := by simpa using hfirst
  exact hleast other (List.mem_toFinset.2 (hrotated.mem_iff.1 hother))

/-- Lists without repetition that are rotations of each other and start alike are equal. -/
theorem eq_of_isRotated_of_head {a : String} {l l' : List String} (hnodup : (a :: l).Nodup)
    (h : (a :: l).IsRotated (a :: l')) : a :: l = a :: l' := by
  obtain ⟨k, hrotate⟩ := h
  have hk : k % (a :: l).length < (a :: l).length := Nat.mod_lt k (by simp)
  rw [← List.rotate_mod] at hrotate
  have hhead : (a :: l)[k % (a :: l).length]? = (a :: l)[0]? := by
    rw [← List.head?_rotate hk, hrotate]
    rfl
  have hzero : k % (a :: l).length = 0 := (List.getElem?_inj hk hnodup).1 hhead
  rwa [hzero, List.rotate_zero] at hrotate

/-- **No cycle is listed in two rotations.** -/
theorem eq_of_mem_findCycles {r s : List String} (hr : r ∈ d.findCycles) (hs : s ∈ d.findCycles)
    (h : r.IsRotated s) : r = s := by
  obtain ⟨⟨a, l, rfl, hnodup, hchain⟩, hearliest⟩ := mem_findCycles_iff.1 hr
  obtain ⟨⟨b, l', rfl, -, -⟩, hearliest'⟩ := mem_findCycles_iff.1 hs
  have ha : a ∈ d.ids := (mem_findCycles_iff.1 hr).1.mem_ids a List.mem_cons_self
  have hab := hearliest a rfl b (h.mem_iff.2 List.mem_cons_self)
  have hba := hearliest' b rfl a (h.mem_iff.1 List.mem_cons_self)
  obtain rfl : a = b := (List.idxOf_inj ha).1 (le_antisymm hab hba)
  exact eq_of_isRotated_of_head hnodup h

/-- **Cycle enumeration is exact.** The reported sequences are the elementary cycles that start with
their earliest node, every elementary cycle is a rotation of exactly one of them, and they increase
strictly in the lexicographic order of the positions of their nodes. -/
theorem findCycles_isExact (d : Diagram) :
    (∀ cycle, cycle ∈ d.findCycles ↔ d.IsElementaryCycle cycle ∧ d.StartsEarliest cycle) ∧
      (∀ cycle, d.IsElementaryCycle cycle → ∃! r, r ∈ d.findCycles ∧ r.IsRotated cycle) ∧
      (d.findCycles.map fun cycle => cycle.map d.ids.idxOf).Pairwise (· < ·) := by
  refine ⟨fun cycle => mem_findCycles_iff, fun cycle h => ?_, ?_⟩
  · obtain ⟨r, hr, hrotated⟩ := h.exists_mem_findCycles
    refine ⟨r, ⟨hr, hrotated⟩, ?_⟩
    rintro s ⟨hs, hrotated'⟩
    exact eq_of_mem_findCycles hs hr (hrotated'.trans hrotated.symm)
  · have hindices : (d.findCycles.map fun cycle => cycle.map d.ids.idxOf) =
        d.arcs.cycles.map (·.map Fin.val) := by
      rw [findCycles, List.map_map]
      refine List.map_congr_left fun vs _ => ?_
      rw [Function.comp_apply, List.map_map]
      exact List.map_congr_left fun v _ => idxOf_idAt v
    rw [hindices, List.pairwise_map]
    refine d.arcs.pairwise_lt_cycles.imp fun {a b} hab => ?_
    exact List.map_lt (f := Fin.val) (fun _ _ hlt => hlt) hab

end Diagram

end Flowchart
