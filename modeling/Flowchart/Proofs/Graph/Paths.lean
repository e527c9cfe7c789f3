import Flowchart.Proofs.Graph.Cycles

/-!
# The enumeration of simple paths is exact and ordered

`findPaths` goes depth first and takes the successors of a node in the order in which edges first
lead to them. So **the paths come in the lexicographic order of these choices** (`Precedes`), and
every simple path between two different nodes is listed once. Where edges lead from one node to
another at all, cutting the detours out of the way leaves a simple path, so the list is empty only if
the other node cannot be reached.
-/

namespace Flowchart

/-! ## The order of the search -/

namespace Search

variable {α : Type} [DecidableEq α] {next order : α → List α} {goal : α} {p q : List α}

/-- Where the two lists first differ, the first goes on with an earlier member of `order u` than the
second, where `u` is the last vertex that they have in common. -/
inductive Precedes (order : α → List α) : List α → List α → Prop
  | here {u v w : α} {p q : List α} :
      (order u).idxOf v < (order u).idxOf w → Precedes order (u :: v :: p) (u :: w :: q)
  | later {u : α} {p q : List α} : Precedes order p q → Precedes order (u :: p) (u :: q)

theorem Precedes.head?_eq (h : Precedes order p q) : p.head? = q.head? := by
  cases h with
  | here => rfl
  | later => rfl

/-- Of two lists only one can precede the other. -/
theorem Precedes.asymm (h : Precedes order p q) : ¬ Precedes order q p := by
  induction h with
  | here hlt =>
    intro hback
    cases hback with
    | here hgt => exact absurd hlt (Nat.not_lt.2 (Nat.le_of_lt hgt))
    | later hback =>
      obtain rfl := Option.some.inj hback.head?_eq
      exact absurd hlt (lt_irrefl _)
  | later h ih =>
    intro hback
    cases hback with
    | here hgt =>
      obtain rfl := Option.some.inj h.head?_eq
      exact absurd hgt (lt_irrefl _)
    | later hback => exact ih hback

/-- First occurrences come in the order of the list. -/
theorem pairwise_idxOf_fresh (seen found : List α) :
    (fresh seen found).Pairwise fun a b => found.idxOf a < found.idxOf b := by
  induction found generalizing seen with
  | nil => exact .nil
  | cons v found ih =>
    -- what is fresh behind `v` and is not `v` itself moves on by one place
    have hmove : ∀ seen', v ∈ seen' → ∀ a ∈ fresh seen' found,
        (v :: found).idxOf a = found.idxOf a + 1 := by
      intro seen' hv a ha
      have hne : v ≠ a := fun h => (mem_fresh.1 ha).2 (h ▸ hv)
      rw [List.idxOf_cons_ne _ hne]
    have hrest : ∀ seen', v ∈ seen' →
        (fresh seen' found).Pairwise fun a b => (v :: found).idxOf a < (v :: found).idxOf b := by
      intro seen' hv
      refine (ih seen').imp_of_mem fun {a b} ha hb hlt => ?_
      rw [hmove seen' hv a ha, hmove seen' hv b hb]
      exact Nat.succ_lt_succ hlt
    rw [fresh]
    split
    · next hv => exact hrest seen hv
    · refine List.pairwise_cons.2 ⟨fun a ha => ?_, hrest _ List.mem_cons_self⟩
      rw [List.idxOf_cons_self, hmove _ List.mem_cons_self a ha]
      exact Nat.succ_pos _

/-- **Depth-first search lists the paths in order**, when it takes the successors in order. -/
theorem pairwise_precedes_simplePaths
    (hnext : ∀ v, (next v).Pairwise fun a b => (order v).idxOf a < (order v).idxOf b)
    (fuel : Nat) (visited : List α) (v : α) :
    (simplePaths next goal fuel visited v).Pairwise (Precedes order) := by
  induction fuel generalizing visited v with
  | zero => exact .nil
  | succ fuel ih =>
    rw [simplePaths, List.pairwise_flatMap]
    refine ⟨fun w _ => ?_, ?_⟩
    -- the paths that go on to the same vertex
    · split
      · exact List.pairwise_singleton _ _
      · split
        · exact .nil
        · exact (ih (w :: visited) w).map _ fun _ _ h => .later h
    -- those that go on to an earlier one and to a later one
    · have hstart : ∀ w, ∀ path ∈ (if w = goal then [[v, w]]
          else if w ∈ visited then []
          else (simplePaths next goal fuel (w :: visited) w).map (v :: ·)),
          ∃ rest, path = v :: w :: rest := by
        intro w path hpath
        split at hpath
        · exact ⟨[], List.mem_singleton.1 hpath⟩
        · split at hpath
          · exact absurd hpath List.not_mem_nil
          · obtain ⟨tail, htail, rfl⟩ := List.mem_map.1 hpath
            obtain ⟨between, rfl, -⟩ := mem_simplePaths_iff.1 htail
            exact ⟨_, rfl⟩
      refine (hnext v).imp fun {a b} hab path ha path' hb => ?_
      obtain ⟨rest, rfl⟩ := hstart a path ha
      obtain ⟨rest', rfl⟩ := hstart b path' hb
      exact .here hab

/-- In a list in order, the place of a path is settled by what it precedes. -/
theorem idxOf_lt_idxOf_iff_precedes {paths : List (List α)} (h : paths.Pairwise (Precedes order))
    (hp : p ∈ paths) (hq : q ∈ paths) :
    paths.idxOf p < paths.idxOf q ↔ Precedes order p q := by
  have hat := List.pairwise_iff_getElem.1 h
  have hforward : ∀ {p q}, p ∈ paths → q ∈ paths → paths.idxOf p < paths.idxOf q →
      Precedes order p q := by
    intro p q hp hq hlt
    have hprecedes := hat _ _ (List.idxOf_lt_length_of_mem hp) (List.idxOf_lt_length_of_mem hq) hlt
    rwa [List.getElem_idxOf, List.getElem_idxOf] at hprecedes
  refine ⟨hforward hp hq, fun hprecedes => ?_⟩
  rcases lt_trichotomy (paths.idxOf p) (paths.idxOf q) with hlt | heq | hgt
  · exact hlt
  · obtain rfl := (List.idxOf_inj hp).1 heq
    exact absurd hprecedes hprecedes.asymm
  · exact absurd hprecedes (hforward hq hp hgt).asymm

end Search

namespace Diagram

variable {d : Diagram} {s t : String} {path : List String}

/-! ## Successors by id -/

/-- The nodes that connected edges from a node lead to, one entry for each edge, in edge order. -/
def targets (d : Diagram) (id : String) : List String :=
  (d.edges.filter fun e => d.connects e && e.source == id).map Edge.target

/-- The successors of a position are the targets of its id. -/
theorem map_idAt_successors (v : Fin d.nodes.length) :
    (d.arcs.successors v).map d.idAt = d.targets (d.idAt v) :=
  map_idAt_filterMap_arcs (fun _ _ harc => (arc?_eq_some_iff.1 harc).1)
    (fun _ _ harc => (arc?_eq_some_iff.1 harc).2) v

/-- Different ids keep the places of a list. -/
theorem idxOf_map_idAt (vs : List (Fin d.nodes.length)) (v : Fin d.nodes.length) :
    (vs.map d.idAt).idxOf (d.idAt v) = vs.idxOf v := by
  induction vs with
  | nil => rfl
  | cons w vs ih =>
    rw [List.map_cons]
    by_cases h : w = v
    · subst h
      rw [List.idxOf_cons_self, List.idxOf_cons_self]
    · have hne : d.idAt w ≠ d.idAt v := fun hid => h (idAt_injective hid)
      rw [List.idxOf_cons_ne _ hne, List.idxOf_cons_ne _ h, ih]

/-- The order of paths of positions is that of paths of ids. -/
theorem precedes_map_idAt {p q : List (Fin d.nodes.length)}
    (h : Search.Precedes d.arcs.successors p q) :
    Search.Precedes d.targets (p.map d.idAt) (q.map d.idAt) := by
  induction h with
  | here hlt =>
    refine .here ?_
    rw [← map_idAt_successors, idxOf_map_idAt, idxOf_map_idAt]
    exact hlt
  | later _ ih => exact .later ih

/-! ## Simple paths of ids -/

/-- A sequence of distinct ids from `s` to `t` in which each is joined to the next by an edge between
nodes. -/
structure IsSimplePath (d : Diagram) (s t : String) (path : List String) : Prop where
  head : path.head? = some s
  last : path.getLast? = some t
  nodup : path.Nodup
  joined : path.IsChain (d.Joins d.edges)

/-- A path between two different ids has both of them at its ends. -/
theorem IsSimplePath.exists_between (h : d.IsSimplePath s t path) (hne : s ≠ t) :
    ∃ between, path = s :: (between ++ [t]) := by
  obtain ⟨rest, rfl⟩ := List.head?_eq_some_iff.1 h.head
  rcases List.eq_nil_or_concat rest with rfl | ⟨between, last, rfl⟩
  · exact absurd (Option.some.inj h.last) hne
  · have hlast := h.last
    rw [List.concat_eq_append, ← List.cons_append, List.getLast?_concat] at hlast
    obtain rfl := Option.some.inj hlast
    exact ⟨between, by rw [List.concat_eq_append]⟩

/-- All ids of a path between two different ids are nodes. -/
theorem IsSimplePath.mem_ids (h : d.IsSimplePath s t path) (hne : s ≠ t) :
    ∀ id ∈ path, id ∈ d.ids := by
  obtain ⟨between, rfl⟩ := h.exists_between hne
  refine List.forall_mem_cons.2 ⟨?_, mem_ids_of_isChain h.joined⟩
  cases between with
  | nil => exact (List.isChain_cons_cons.1 h.joined).1.mem_ids.1
  | cons id between => exact (List.isChain_cons_cons.1 h.joined).1.mem_ids.1

/-- Chains of arcs are chains of edges that join ids. -/
theorem isChain_map_idAt_iff {vs : List (Fin d.nodes.length)} :
    (vs.map d.idAt).IsChain (d.Joins d.edges) ↔ vs.IsChain fun a b => (a, b) ∈ d.arcs := by
  simp only [List.isChain_map, mem_arcs_iff]

/-- The search between two positions finds the simple paths between their ids. -/
theorem map_idAt_isSimplePath_iff {u v : Fin d.nodes.length} (hne : u ≠ v)
    {vs : List (Fin d.nodes.length)} :
    vs ∈ Search.simplePaths d.arcs.neighbours.get v d.nodes.length [u] u ↔
      d.IsSimplePath (d.idAt u) (d.idAt v) (vs.map d.idAt) := by
  have hnext : (fun a b => b ∈ d.arcs.neighbours.get a) = fun a b => (a, b) ∈ d.arcs := by
    funext a b
    exact propext Arcs.mem_neighbours
  rw [Search.mem_simplePaths_iff, hnext]
  constructor
  · rintro ⟨between, rfl, hchain, hnodup, havoid, -⟩
    refine ⟨rfl, ?_, ?_, isChain_map_idAt_iff.2 hchain⟩
    · rw [← List.cons_append, List.map_append, List.map_singleton, List.getLast?_concat]
    · refine List.Nodup.map idAt_injective (List.nodup_cons.2 ⟨fun hu => ?_, ?_⟩)
      · rcases List.mem_append.1 hu with hu | hu
        · exact (havoid u hu).2 List.mem_cons_self
        · exact hne (List.mem_singleton.1 hu)
      · exact List.nodup_append_comm.2 (List.nodup_cons.2 ⟨fun hv => (havoid v hv).1 rfl, hnodup⟩)
  · intro h
    obtain ⟨between, hpath⟩ := h.exists_between fun hid => hne (idAt_injective hid)
    obtain ⟨u', rest, rfl, hu, hrest⟩ := List.map_eq_cons_iff.1 hpath
    obtain ⟨bs, last, rfl, rfl, hlast⟩ := List.map_eq_append_iff.1 hrest
    obtain ⟨v', rfl, hv⟩ := List.map_eq_singleton_iff.1 hlast
    obtain rfl := idAt_injective hu
    obtain rfl := idAt_injective hv
    have hnodup := h.nodup.of_map d.idAt
    obtain ⟨hfirst, hinner⟩ := List.nodup_cons.1 hnodup
    obtain ⟨hlast, hbetween⟩ := List.nodup_cons.1 (List.nodup_append_comm.1 hinner)
    refine ⟨bs, rfl, isChain_map_idAt_iff.1 h.joined, hbetween, fun w hw => ⟨?_, ?_⟩, ?_⟩
    · rintro rfl
      exact hlast hw
    · rw [List.mem_singleton]
      rintro rfl
      exact hfirst (List.mem_append_left _ hw)
    · have hcard := hnodup.length_le_card
      rw [Fintype.card_fin, List.length_cons, List.length_append, List.length_singleton] at hcard
      omega

/-- Between two different nodes the search runs on their positions. -/
theorem findPaths_idAt {u v : Fin d.nodes.length} (hne : u ≠ v) :
    d.findPaths (d.idAt u) (d.idAt v) =
      (Search.simplePaths d.arcs.neighbours.get v d.nodes.length [u] u).map (·.map d.idAt) := by
  rw [findPaths, position?_eq_some_iff.2 rfl, position?_eq_some_iff.2 rfl]
  exact if_neg hne

/-- **What is listed**: the simple paths. -/
theorem mem_findPaths_iff (hs : s ∈ d.ids) (ht : t ∈ d.ids) (hne : s ≠ t) :
    path ∈ d.findPaths s t ↔ d.IsSimplePath s t path := by
  obtain ⟨u, hu⟩ := exists_position? hs
  obtain ⟨v, hv⟩ := exists_position? ht
  obtain rfl := position?_eq_some_iff.1 hu
  obtain rfl := position?_eq_some_iff.1 hv
  have huv : u ≠ v := fun h => hne (congrArg d.idAt h)
  rw [findPaths_idAt huv, List.mem_map]
  constructor
  · rintro ⟨vs, hvs, rfl⟩
    exact (map_idAt_isSimplePath_iff huv).1 hvs
  · intro h
    obtain ⟨vs, rfl⟩ := exists_map_idAt (h.mem_ids hne)
    exact ⟨vs, (map_idAt_isSimplePath_iff huv).2 h, rfl⟩

/-- **The paths are listed in order.** -/
theorem pairwise_precedes_findPaths (hs : s ∈ d.ids) (ht : t ∈ d.ids) (hne : s ≠ t) :
    (d.findPaths s t).Pairwise (Search.Precedes d.targets) := by
  obtain ⟨u, hu⟩ := exists_position? hs
  obtain ⟨v, hv⟩ := exists_position? ht
  obtain rfl := position?_eq_some_iff.1 hu
  obtain rfl := position?_eq_some_iff.1 hv
  rw [findPaths_idAt fun h => hne (congrArg d.idAt h), List.pairwise_map]
  refine List.Pairwise.imp precedes_map_idAt ?_
  refine Search.pairwise_precedes_simplePaths (fun w => ?_) _ _ _
  rw [Arcs.get_neighbours]
  exact Search.pairwise_idxOf_fresh [] _

/-! ## Cutting out detours -/

/-- What comes behind an id of a simple path is a simple path from there. -/
theorem IsSimplePath.from_mem {id : String} (h : d.IsSimplePath s t path) (hid : id ∈ path) :
    ∃ tail, d.IsSimplePath id t tail := by
  obtain ⟨before, after, rfl⟩ := List.append_of_mem hid
  refine ⟨id :: after, rfl, ?_, h.nodup.of_append_right, h.joined.right_of_append⟩
  rw [← h.last, List.getLast?_append_of_ne_nil _ (List.cons_ne_nil id after)]

/-- **Where edges lead, a simple path leads.** -/
theorem Leads.exists_isSimplePath (h : d.Leads d.edges s t) (hne : s ≠ t) :
    ∃ path, d.IsSimplePath s t path := by
  induction h using Relation.TransGen.head_induction_on with
  | single hjoins => exact ⟨[_, t], rfl, rfl, by simpa using hne, List.isChain_pair.2 hjoins⟩
  | @head a b hjoins _ ih =>
    by_cases hbt : b = t
    · subst hbt
      exact ⟨[a, b], rfl, rfl, by simpa using hne, List.isChain_pair.2 hjoins⟩
    · obtain ⟨path, hpath⟩ := ih hbt
      by_cases ha : a ∈ path
      · exact hpath.from_mem ha
      · obtain ⟨rest, rfl⟩ := List.head?_eq_some_iff.1 hpath.head
        refine ⟨a :: b :: rest, rfl, ?_, List.nodup_cons.2 ⟨ha, hpath.nodup⟩,
          List.isChain_cons_cons.2 ⟨hjoins, hpath.joined⟩⟩
        rw [List.getLast?_cons_cons]
        exact hpath.last

/-- Edges lead along a path between two different ids. -/
theorem IsSimplePath.leads (h : d.IsSimplePath s t path) (hne : s ≠ t) : d.Leads d.edges s t := by
  obtain ⟨between, rfl⟩ := h.exists_between hne
  have hchain := h.joined
  clear h hne
  induction between generalizing s with
  | nil => exact .single (List.isChain_pair.1 hchain)
  | cons id between ih =>
    obtain ⟨hjoins, hrest⟩ := List.isChain_cons_cons.1 hchain
    exact .head hjoins (ih hrest)

/-- **Path enumeration is exact and ordered.** Between two different nodes the simple paths are
listed, each once. One comes before another exactly if it goes on to an earlier target where the two
first differ. There is one exactly if the second node is reachable from the first. -/
theorem findPaths_isExact (hs : s ∈ d.ids) (ht : t ∈ d.ids) (hne : s ≠ t) :
    (∀ path, path ∈ d.findPaths s t ↔ d.IsSimplePath s t path) ∧
      (d.findPaths s t).Nodup ∧
      (∀ p ∈ d.findPaths s t, ∀ q ∈ d.findPaths s t,
        (d.findPaths s t).idxOf p < (d.findPaths s t).idxOf q ↔ Search.Precedes d.targets p q) ∧
      (d.findPaths s t ≠ [] ↔ d.isReachable s t = true) := by
  have horder := pairwise_precedes_findPaths hs ht hne
  refine ⟨fun path => mem_findPaths_iff hs ht hne, ?_, ?_, ?_⟩
  · refine horder.imp fun {p q} h heq => ?_
    subst heq
    exact h.asymm h
  · intro p hp q hq
    exact Search.idxOf_lt_idxOf_iff_precedes horder hp hq
  · rw [isReachable_iff]
    constructor
    · intro hsome
      obtain ⟨path, hpath⟩ := List.exists_mem_of_ne_nil _ hsome
      exact ((mem_findPaths_iff hs ht hne).1 hpath).leads hne
    · intro hleads
      obtain ⟨path, hpath⟩ := hleads.exists_isSimplePath hne
      exact List.ne_nil_of_mem ((mem_findPaths_iff hs ht hne).2 hpath)

/-- Two ways from `a` to `c`, the longer one first; parallel edges, a way back and an edge to no
node. -/
def detour : Diagram := .of
  [{ id := "c", label := "C" }, { id := "a", label := "A" }, { id := "b", label := "B" }]
  [{ source := "a", target := "b" }, { source := "a", target := "c" },
    { source := "b", target := "c" }, { source := "a", target := "b" },
    { source := "c", target := "a" }, { source := "b", target := "ghost" }]
  .empty (by decide)

theorem findPaths_isExact_detour :
    ("a" ∈ detour.ids ∧ "c" ∈ detour.ids ∧ "a" ≠ "c") ∧
      detour.findPaths "a" "c" = [["a", "b", "c"], ["a", "c"]] ∧
      (∀ path, path ∈ detour.findPaths "a" "c" ↔ detour.IsSimplePath "a" "c" path) ∧
      (detour.findPaths "a" "c").Nodup ∧
      (∀ p ∈ detour.findPaths "a" "c", ∀ q ∈ detour.findPaths "a" "c",
        (detour.findPaths "a" "c").idxOf p < (detour.findPaths "a" "c").idxOf q ↔
          Search.Precedes detour.targets p q) ∧
      (detour.findPaths "a" "c" ≠ [] ↔ detour.isReachable "a" "c" = true) :=
  ⟨⟨by decide, by decide, by decide⟩, by decide +kernel,
    findPaths_isExact (by decide) (by decide) (by decide)⟩

end Diagram

end Flowchart
