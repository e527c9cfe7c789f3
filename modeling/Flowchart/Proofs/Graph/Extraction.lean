import Flowchart.Proofs.Diagram
import Flowchart.Proofs.Graph.Levels
import Flowchart.Proofs.Graph.Paths

/-!
# The part of a diagram below a node

`extract` keeps the nodes whose places have a level in the survey from the root, counting along with
the nodes, and looks up the ends of an edge by their ids. Both ways ask for the same thing, **whether
an admitted number of connected edges leads from the root to the id**. An edge is kept with both of
its ends, so the part never dangles.
-/

namespace Flowchart.Diagram

open Sheet
open Search (Steps)

variable {d : Diagram} {root id : String} {limit? : Option Nat} {k : Nat}

/-! ## Counting along -/

/-- Who counts the members and says of each what `p` says keeps what `p` keeps. -/
theorem retained_counting_eq_filter {α : Type} {p : α → Bool} {keep : Nat → α → Bool}
    {items : List α} {i : Nat} (h : ∀ j a, items[j]? = some a → keep (i + j) a = p a) :
    retained (counting keep) i items = items.filter p := by
  induction items generalizing i with
  | nil => rfl
  | cons a rest ih =>
    have hhead : keep i a = p a := h 0 a rfl
    have htail : retained (counting keep) (i + 1) rest = rest.filter p := by
      apply ih
      intro j b hb
      have hnext := h (j + 1) b (by simpa using hb)
      rwa [Nat.add_right_comm, Nat.add_assoc]
    show (if keep i a then a :: retained (counting keep) (i + 1) rest
      else retained (counting keep) (i + 1) rest) = _
    rw [hhead, htail, List.filter_cons]

/-! ## Counted edges -/

/-- An admitted number of connected edges, one after the other, leads from the root to the id. -/
def IsWithin (d : Diagram) (root : String) (limit? : Option Nat) (id : String) : Prop :=
  ∃ k, Steps (d.Joins d.edges) root id k ∧ ∀ limit ∈ limit?, k ≤ limit

/-- As many arcs as connected edges lead from one place to another. -/
theorem steps_arcs_iff {u v : Fin d.nodes.length} :
    Steps (fun a b => (a, b) ∈ d.arcs) u v k ↔ Steps (d.Joins d.edges) (d.idAt u) (d.idAt v) k := by
  constructor
  · intro h
    induction h with
    | none => exact .none
    | snoc _ harc ih => exact ih.snoc (mem_arcs_iff.1 harc)
  -- every id on the way is the id at some place
  · intro h
    generalize hid : d.idAt v = id at h
    induction h generalizing v with
    | none =>
      obtain rfl := idAt_injective hid
      exact .none
    | snoc _ hjoins ih =>
      subst hid
      obtain ⟨w, hw⟩ := exists_position? hjoins.mem_ids.1
      obtain rfl := position?_eq_some_iff.1 hw
      exact (ih rfl).snoc (mem_arcs_iff.2 hjoins)

/-- Without a limit the root is left and what can be reached from it. -/
theorem isWithin_none_iff : d.IsWithin root none id ↔ id = root ∨ id ∈ d.reachable root := by
  rw [mem_reachable_iff, Leads, ← Search.exists_steps_iff]
  simp [IsWithin]

/-! ## The part that is kept -/

/-- The id has a level in the survey from a place. -/
def hasLevel (d : Diagram) (start : Fin d.nodes.length) (limit? : Option Nat) (id : String) : Bool :=
  (d.position? id).any fun v => ((d.arcs.levels start limit?).get v).isSome

/-- **An id has a level exactly if it is a node within the limit.** -/
theorem hasLevel_iff {start : Fin d.nodes.length} :
    d.hasLevel start limit? id = true ↔ id ∈ d.ids ∧ d.IsWithin (d.idAt start) limit? id := by
  unfold hasLevel
  cases hv : d.position? id with
  | none =>
    rw [Option.any_none]
    constructor
    · exact fun h => absurd h Bool.false_ne_true
    · exact fun h => absurd h.1 (position?_eq_none_iff.1 hv)
  | some v =>
    obtain rfl := position?_eq_some_iff.1 hv
    rw [Option.any_some, Arcs.isSome_levels_iff]
    simp only [steps_arcs_iff]
    exact (and_iff_right (idAt_mem_ids v)).symm

/-- At the place of a node stands the level of its id. -/
theorem any_levels_eq_hasLevel {start : Fin d.nodes.length} {i : Nat} {n : Node}
    (h : d.nodes[i]? = some n) :
    (d.arcs.levels start limit?)[i]?.any Option.isSome = d.hasLevel start limit? n.id := by
  obtain ⟨hi, rfl⟩ := List.getElem?_eq_some_iff.1 h
  have hplace : d.position? d.nodes[i].id = some ⟨i, hi⟩ := position?_eq_some_iff.2 rfl
  rw [hasLevel, hplace, Option.any_some, Vector.getElem?_eq_getElem hi, Option.any_some]
  rfl

/-- Keeping by places keeps the nodes that have a level by their ids. -/
theorem nodes_part (d : Diagram) (start : Fin d.nodes.length) (limit? : Option Nat) :
    (d.part start limit?).nodes = d.nodes.filter fun n => d.hasLevel start limit? n.id := by
  refine (nodes_retainNodesWith d.toSheet _ 0).trans (retained_counting_eq_filter fun j n hn => ?_)
  rw [Nat.zero_add]
  exact any_levels_eq_hasLevel hn

/-- Extraction from a node gives its part of the sheet. -/
theorem exists_extract_eq_ok {start : Fin d.nodes.length} (h : d.position? root = some start)
    (limit? : Option Nat) :
    ∃ part, d.extract root limit? = .ok part ∧ part.toSheet = d.part start limit? := by
  have hsheet : d.toSheet.extract root limit? = .ok (d.part start limit?) := by
    rw [Sheet.extract, h]
  unfold extract
  split
  · next part hpart => exact ⟨_, rfl, Except.ok.inj (hpart.symm.trans hsheet)⟩
  · next hpart => exact absurd (hpart.symm.trans hsheet) (by simp)

/-- Keeping by places and by ids is the same. -/
theorem extract_eq_ok {start : Fin d.nodes.length} (h : d.position? root = some start) :
    d.extract root limit? = .ok ((d.retainNodes fun n => d.hasLevel start limit? n.id).retainEdges
      fun e => d.hasLevel start limit? e.source && d.hasLevel start limit? e.target) := by
  obtain ⟨part, hpart, hsheet⟩ := exists_extract_eq_ok h limit?
  rw [hpart, Except.ok.injEq]
  apply ext_nodes
  · rw [hsheet, nodes_part]
    exact (d.nodes_retainNodes _).symm
  · rw [hsheet]
    rfl
  · rw [hsheet]
    rfl

/-- A root that is no node is refused. -/
theorem extract_eq_error (h : root ∉ d.ids) :
    d.extract root limit? = .error (.unknownNode root) := by
  have hsheet : d.toSheet.extract root limit? = .error (.unknownNode root) := by
    rw [Sheet.extract, position?_eq_none_iff.2 h]
  unfold extract
  split
  · next hpart => exact absurd (hpart.symm.trans hsheet) (by simp)
  · next hpart => rw [← Except.error.inj (hpart.symm.trans hsheet)]

/-- The part of a diagram within some steps of a root: these nodes as they are, in their order, the
edges between them, and the metadata. -/
structure IsPart (d : Diagram) (root : String) (limit? : Option Nat) (part : Diagram) : Prop where
  sublist_nodes : part.nodes.Sublist d.nodes
  mem_nodes : ∀ n, n ∈ part.nodes ↔ n ∈ d.nodes ∧ d.IsWithin root limit? n.id
  edges_eq : part.edges = d.edges.filter fun e => part.contains e.source && part.contains e.target
  metadata_eq : part.metadata = d.metadata
  validate_eq : part.validate = .ok ()

/-- **Keeping what has a level keeps the part.** -/
theorem isPart_retain (d : Diagram) (start : Fin d.nodes.length) (limit? : Option Nat) :
    d.IsPart (d.idAt start) limit? ((d.retainNodes fun n => d.hasLevel start limit? n.id).retainEdges
      fun e => d.hasLevel start limit? e.source && d.hasLevel start limit? e.target) := by
  set part := (d.retainNodes fun n => d.hasLevel start limit? n.id).retainEdges
    fun e => d.hasLevel start limit? e.source && d.hasLevel start limit? e.target with hpart
  have hnodes : part.nodes = d.nodes.filter fun n => d.hasLevel start limit? n.id :=
    d.nodes_retainNodes fun n => d.hasLevel start limit? n.id
  have hmem : ∀ n, n ∈ part.nodes ↔ n ∈ d.nodes ∧ d.hasLevel start limit? n.id = true := by
    intro n
    rw [hnodes, List.mem_filter]
  -- the ids that stay are those with a level
  have hcontains : ∀ id, part.contains id = d.hasLevel start limit? id := by
    intro id
    rw [Bool.eq_iff_iff, contains_iff_mem_ids, ids, List.mem_map]
    constructor
    · rintro ⟨n, hn, rfl⟩
      exact ((hmem n).1 hn).2
    · intro hlevel
      obtain ⟨n, hn, rfl⟩ := List.mem_map.1 (hasLevel_iff.1 hlevel).1
      exact ⟨n, (hmem n).2 ⟨hn, hlevel⟩, rfl⟩
  have hedges : part.edges =
      d.edges.filter fun e => part.contains e.source && part.contains e.target := by
    simp only [hcontains]
    rfl
  constructor
  · rw [hnodes]
    exact List.filter_sublist
  · intro n
    rw [hmem, and_congr_right_iff]
    intro hn
    rw [hasLevel_iff]
    exact and_iff_right (List.mem_map_of_mem hn)
  · exact hedges
  · rfl
  · rw [validate_eq_ok_iff, hedges]
    intro e he
    have hkept := (List.mem_filter.1 he).2
    rw [Bool.and_eq_true, contains_iff_mem_ids, contains_iff_mem_ids] at hkept
    exact hkept

/-- **Extraction gives a part, or refuses a root that is no node.** -/
theorem extract_cases (d : Diagram) (root : String) (limit? : Option Nat) :
    (root ∈ d.ids ∧ ∃ part, d.extract root limit? = .ok part ∧ d.IsPart root limit? part) ∨
      (root ∉ d.ids ∧ d.extract root limit? = .error (.unknownNode root)) := by
  by_cases hroot : root ∈ d.ids
  · left
    obtain ⟨start, hstart⟩ := exists_position? hroot
    obtain rfl := position?_eq_some_iff.1 hstart
    exact ⟨hroot, _, extract_eq_ok hstart, isPart_retain d start limit?⟩
  · right
    exact ⟨hroot, extract_eq_error hroot⟩

/-- Without a limit the part has the root and what can be reached from it. -/
theorem IsPart.mem_ids_iff {part : Diagram} (h : d.IsPart root none part) (hroot : root ∈ d.ids) :
    id ∈ part.ids ↔ id = root ∨ id ∈ d.reachable root := by
  rw [← isWithin_none_iff, ids, List.mem_map]
  constructor
  · rintro ⟨n, hn, rfl⟩
    exact ((h.mem_nodes n).1 hn).2
  · intro hwithin
    have hid : id ∈ d.ids := by
      rcases isWithin_none_iff.1 hwithin with rfl | hreachable
      · exact hroot
      · exact (mem_reachable_iff.1 hreachable).mem_ids.2
    obtain ⟨n, hn, rfl⟩ := List.mem_map.1 hid
    exact ⟨n, (h.mem_nodes n).2 ⟨hn, hwithin⟩, rfl⟩

/-- **Extraction is exact.** It is refused exactly for a root that is no node. Otherwise it gives the
nodes that at most `limit?` connected edges lead to from the root, as they are and in their order,
with all edges between them, the metadata, and no dangling edge; without a limit these nodes are the
root and what is reachable from it. -/
theorem extract_isExact (d : Diagram) (root : String) (limit? : Option Nat) :
    (d.extract root limit? = .error (.unknownNode root) ↔ root ∉ d.ids) ∧
      (root ∈ d.ids → ∃ part, d.extract root limit? = .ok part ∧ d.IsPart root limit? part ∧
        (limit? = none → ∀ id, id ∈ part.ids ↔ id = root ∨ id ∈ d.reachable root)) := by
  rcases d.extract_cases root limit? with ⟨hroot, part, hpart, hisPart⟩ | ⟨hroot, herror⟩
  · constructor
    · constructor
      · exact fun herror => absurd (hpart.symm.trans herror) (by simp)
      · exact fun h => absurd hroot h
    · intro _
      refine ⟨part, hpart, hisPart, ?_⟩
      rintro rfl id
      exact hisPart.mem_ids_iff hroot
  · constructor
    · exact ⟨fun _ => hroot, fun _ => herror⟩
    · exact fun h => absurd h hroot

/-- One step from `b` leads to `c` only, and two back to `a`; the edge to no node leads nowhere. -/
theorem extract_isExact_detour :
    detour.extract "ghost" none = .error (.unknownNode "ghost") ∧
      "b" ∈ detour.ids ∧ ∃ part, detour.extract "b" (some 1) = .ok part ∧
        detour.IsPart "b" (some 1) part ∧ part.ids = ["c", "b"] := by
  obtain ⟨hrefused, -⟩ := extract_isExact detour "ghost" none
  obtain ⟨-, hkept⟩ := extract_isExact detour "b" (some 1)
  have hb : "b" ∈ detour.ids := by decide
  obtain ⟨part, hpart, hisPart, -⟩ := hkept hb
  have hids : (detour.extract "b" (some 1)).toOption.map ids = some ["c", "b"] := by decide +kernel
  rw [hpart] at hids
  exact ⟨hrefused.2 (by decide), hb, part, hpart, hisPart, Option.some.inj hids⟩

end Flowchart.Diagram
