import Flowchart.Proofs.Graph.Cyclicity
import Flowchart.Proofs.Graph.Extraction
import Mathlib.Order.Lattice.Nat

/-!
# Breadth-first search lists the nearest first

The queue of a breadth-first search is always the end of the line of all vertices that it met, the
start in front. When each of them is noted with the length of the walk that met it, the line is in the
order of these lengths and the first in the queue is at most one step behind the last one in the line
(`Layered`). So whatever left the queue has its successors in the line at most one step further, and
when the queue is empty **no walk is shorter than the length that was noted**.

The start is in the line with length zero, before anything is met. It is met like any other vertex if
a walk leads back to it, and then its length is that of the shortest cycle through it.
-/

namespace Flowchart

namespace Search

variable {α : Type}

/-! ## Walks are counted steps -/

/-- A walk is a positive number of steps. -/
theorem walk_iff_steps {next : α → List α} {u v : α} {n : Nat} :
    Walk next u v n ↔ 0 < n ∧ Steps (fun a b => b ∈ next a) u v n := by
  constructor
  · intro h
    induction h with
    | one hv => exact ⟨Nat.one_pos, .snoc .none hv⟩
    | cons hv _ ih => exact ⟨Nat.succ_pos _, ih.2.cons hv⟩
  · rintro ⟨hpos, h⟩
    induction h with
    | none => exact absurd hpos (lt_irrefl 0)
    | snoc hsteps hw ih =>
      -- the first step is a walk by itself, every later one goes on with the walk before
      cases hsteps with
      | none => exact .one hw
      | snoc _ _ => exact (ih (Nat.succ_pos _)).snoc hw

/-! ## The line of the vertices met -/

variable {next : α → List α} {start w : α} {p : α × Nat} {n : Nat}
  {passed waiting met : List (α × Nat)}

/-- What holds at every step when each vertex is noted with the length of the walk that met it: the
start and the vertices met after it are those that left the queue and then those that wait in it; the
lengths do not decrease, and nothing is more than one step further than what waits; and from what
left the queue everything was met within one step. -/
structure Layered (next : α → List α) (start : α) (passed waiting met : List (α × Nat)) : Prop where
  line : (start, 0) :: met = passed ++ waiting
  walk : ∀ p ∈ met, Walk next start p.1 p.2
  sorted : met.Pairwise fun p q => p.2 ≤ q.2
  span : ∀ p ∈ waiting, ∀ q ∈ met, q.2 ≤ p.2 + 1
  closed : ∀ p ∈ passed, ∀ w ∈ next p.1, ∃ k ≤ p.2 + 1, (w, k) ∈ met

/-- At the start the line is the start vertex. -/
theorem layered_start (next : α → List α) (start : α) : Layered next start [] [(start, 0)] [] where
  line := rfl
  walk := List.forall_mem_nil _
  sorted := List.Pairwise.nil
  span _ _ := List.forall_mem_nil _
  closed := List.forall_mem_nil _

/-- What waits behind `p` is not nearer. -/
theorem Layered.le_of_mem (h : Layered next start passed (p :: waiting) met) {q : α × Nat}
    (hq : q ∈ waiting) : p.2 ≤ q.2 := by
  have hline : ((start, 0) :: met).Pairwise fun p q => p.2 ≤ q.2 :=
    List.pairwise_cons.2 ⟨fun q _ => Nat.zero_le q.2, h.sorted⟩
  rw [h.line] at hline
  exact (List.pairwise_cons.1 (List.pairwise_append.1 hline).2.1).1 q hq

/-- When nothing waits, every walk from the line bounds a length that was noted. -/
theorem Layered.exists_le_of_walk (h : Layered next start passed [] met) {u : α}
    (hwalk : Walk next u w n) {k : Nat} (hu : (u, k) ∈ (start, 0) :: met) :
    ∃ j ≤ k + n, (w, j) ∈ met := by
  have hpassed : passed = (start, 0) :: met := by rw [h.line, List.append_nil]
  induction hwalk generalizing k with
  | one hv => exact h.closed (_, k) (hpassed ▸ hu) _ hv
  | cons hv _ ih =>
    obtain ⟨i, hi, hmet⟩ := h.closed (_, k) (hpassed ▸ hu) _ hv
    obtain ⟨j, hj, hw⟩ := ih (List.mem_cons_of_mem _ hmet)
    exact ⟨j, by omega, hw⟩

variable [DecidableEq α]

/-- What is met from `p`, one step further than it. -/
def beyond (next : α → List α) (met : List (α × Nat)) (p : α × Nat) : List (α × Nat) :=
  (fresh (met.map Prod.fst) (next p.1)).map fun w => (w, p.2 + 1)

theorem snd_of_mem_beyond {q : α × Nat} (hq : q ∈ beyond next met p) : q.2 = p.2 + 1 := by
  obtain ⟨w, -, rfl⟩ := List.mem_map.1 hq
  rfl

/-- **One step keeps the line layered.** -/
theorem Layered.step (h : Layered next start passed (p :: waiting) met) :
    Layered next start (passed ++ [p]) (waiting ++ beyond next met p)
      (met ++ beyond next met p) where
  line := by
    rw [← List.cons_append, h.line, List.append_assoc, List.append_assoc]
    rfl
  walk := by
    intro q hq
    rcases List.mem_append.1 hq with hq | hq
    · exact h.walk q hq
    · obtain ⟨w, hw, rfl⟩ := List.mem_map.1 hq
      have hstep : w ∈ next p.1 := (mem_fresh.1 hw).1
      have hp : p ∈ (start, 0) :: met := by
        rw [h.line]
        exact List.mem_append_right passed List.mem_cons_self
      rcases List.mem_cons.1 hp with rfl | hp
      · exact .one hstep
      · exact (h.walk p hp).snoc hstep
  sorted := by
    refine List.pairwise_append.2 ⟨h.sorted, ?_, ?_⟩
    · exact List.pairwise_map.2 (List.pairwise_of_forall fun _ _ => le_refl (p.2 + 1))
    · intro q hq r hr
      rw [snd_of_mem_beyond hr]
      exact h.span p List.mem_cons_self q hq
  span := by
    intro q hq r hr
    have hnear : p.2 ≤ q.2 := by
      rcases List.mem_append.1 hq with hq | hq
      · exact h.le_of_mem hq
      · rw [snd_of_mem_beyond hq]
        omega
    have hfar : r.2 ≤ p.2 + 1 := by
      rcases List.mem_append.1 hr with hr | hr
      · exact h.span p List.mem_cons_self r hr
      · exact (snd_of_mem_beyond hr).le
    omega
  closed := by
    intro q hq w hw
    rcases List.mem_append.1 hq with hq | hq
    · obtain ⟨k, hk, hmet⟩ := h.closed q hq w hw
      exact ⟨k, hk, List.mem_append_left _ hmet⟩
    · obtain rfl := List.mem_singleton.1 hq
      by_cases hold : w ∈ met.map Prod.fst
      -- a successor that was met before is at most one step beyond what waits
      · obtain ⟨r, hr, rfl⟩ := List.mem_map.1 hold
        exact ⟨r.2, h.span q List.mem_cons_self r hr, List.mem_append_left _ hr⟩
      · refine ⟨q.2 + 1, le_refl _, List.mem_append_right met ?_⟩
        exact List.mem_map.2 ⟨w, mem_fresh.2 ⟨hw, hold⟩, rfl⟩

/-- **The search meets the vertices in the order of their distances.** -/
theorem exists_distances [Fintype α] (next : α → List α) (start : α) {fuel : Nat}
    (hfuel : 1 + Fintype.card α ≤ fuel) :
    ∃ met : List (α × Nat), met.map Prod.fst = explore next fuel [start] [] ∧
      (met.Pairwise fun p q => p.2 ≤ q.2) ∧
      ∀ p ∈ met, IsLeast {n | Walk next start p.1 n} p.2 := by
  have hrun : ∃ passed waiting met : List (α × Nat), waiting.map Prod.fst = [] ∧
      met.map Prod.fst = explore next fuel [start] [] ∧ Layered next start passed waiting met := by
    refine explore_induction_of_fintype (P := fun queue seen => ∃ passed waiting met : List (α × Nat),
      waiting.map Prod.fst = queue ∧ met.map Prod.fst = seen ∧
        Layered next start passed waiting met) ?_ ?_ List.nodup_nil (by simpa using hfuel)
    · rintro v queue seen ⟨passed, waiting, met, hqueue, rfl, hlayered⟩
      obtain ⟨p, waiting, rfl, rfl, rfl⟩ := List.map_eq_cons_iff.1 hqueue
      have hbeyond : (beyond next met p).map Prod.fst = fresh (met.map Prod.fst) (next p.1) := by
        rw [beyond, List.map_map]
        exact List.map_id _
      refine ⟨_, _, _, ?_, ?_, hlayered.step⟩
      · rw [List.map_append, hbeyond]
      · rw [List.map_append, hbeyond]
    · exact ⟨[], [(start, 0)], [], rfl, rfl, layered_start next start⟩
  obtain ⟨passed, waiting, met, hqueue, hseen, hlayered⟩ := hrun
  obtain rfl := List.map_eq_nil_iff.1 hqueue
  have hnodup : (met.map Prod.fst).Nodup := by
    rw [hseen]
    exact (explored_explore hfuel).nodup
  refine ⟨met, hseen, hlayered.sorted, fun p hp => ⟨hlayered.walk p hp, fun n hn => ?_⟩⟩
  obtain ⟨j, hj, hmet⟩ := hlayered.exists_le_of_walk hn List.mem_cons_self
  have hsame : p = (p.1, j) := List.inj_on_of_nodup_map hnodup hp hmet rfl
  have hlength : p.2 = j := congrArg Prod.snd hsame
  omega

end Search

namespace Diagram

open Search (Steps Walk)

variable {d : Diagram} {u v : String} {k : Nat}

/-! ## Walks along connected edges -/

/-- A walk along `k` connected edges, at least one, leads from `u` to `v`. -/
def Walks (d : Diagram) (u v : String) (k : Nat) : Prop := 0 < k ∧ Steps (d.Joins d.edges) u v k

/-- The length of a shortest walk from `u` to `v`. -/
noncomputable def distance (d : Diagram) (u v : String) : Nat := sInf {k | d.Walks u v k}

/-- Walks between places are walks between their ids. -/
theorem walk_successors_iff {a b : Fin d.nodes.length} :
    Walk d.arcs.successors a b k ↔ d.Walks (d.idAt a) (d.idAt b) k := by
  rw [Search.walk_iff_steps, Walks, ← steps_arcs_iff]
  simp only [Arcs.mem_successors]

theorem exists_walks_iff : (∃ k, d.Walks u v k) ↔ d.Leads d.edges u v := Search.exists_steps_pos_iff

/-! ## Reachable nodes -/

theorem reachable_idAt (a : Fin d.nodes.length) :
    d.reachable (d.idAt a) = (d.arcs.reachable a).map d.idAt := by
  rw [reachable, position?_eq_some_iff.2 rfl]

/-- What is no node reaches nothing. -/
theorem reachable_eq_nil (h : u ∉ d.ids) : d.reachable u = [] := by
  rw [reachable, position?_eq_none_iff.2 h]

/-- Nothing is reached twice. -/
theorem nodup_reachable (d : Diagram) (u : String) : (d.reachable u).Nodup := by
  by_cases hu : u ∈ d.ids
  · obtain ⟨a, ha⟩ := exists_position? hu
    obtain rfl := position?_eq_some_iff.1 ha
    rw [reachable_idAt]
    exact List.Nodup.map idAt_injective (Search.explored_explore Arcs.card_le_fuel).nodup
  · rw [reachable_eq_nil hu]
    exact List.nodup_nil

/-- **Reachable nodes come in the order of their distances.** -/
theorem pairwise_distance_reachable (d : Diagram) (u : String) :
    (d.reachable u).Pairwise fun v w => d.distance u v ≤ d.distance u w := by
  by_cases hu : u ∈ d.ids
  · obtain ⟨a, ha⟩ := exists_position? hu
    obtain rfl := position?_eq_some_iff.1 ha
    obtain ⟨met, hmet, hsorted, hleast⟩ :=
      Search.exists_distances d.arcs.successors a Arcs.card_le_fuel
    have hdistance : ∀ p ∈ met, d.distance (d.idAt a) (d.idAt p.1) = p.2 := by
      intro p hp
      have hp := hleast p hp
      simp only [walk_successors_iff] at hp
      exact hp.csInf_eq
    rw [reachable_idAt, Arcs.reachable, ← hmet, List.map_map, List.pairwise_map]
    refine hsorted.imp_of_mem fun {p q} hp hq hle => ?_
    rw [Function.comp_apply, Function.comp_apply, hdistance p hp, hdistance q hq]
    exact hle
  · rw [reachable_eq_nil hu]
    exact List.Pairwise.nil

/-- A node is reachable from itself exactly if it lies on a cycle. -/
theorem mem_reachable_self_iff :
    u ∈ d.reachable u ↔ ∃ cycle, d.IsElementaryCycle cycle ∧ u ∈ cycle := by
  rw [mem_reachable_iff]
  constructor
  · exact Leads.exists_isElementaryCycle
  · rintro ⟨cycle, hcycle, hu⟩
    exact hcycle.leads hu

/-- Being reachable is being listed as such. -/
theorem isReachable_iff_mem_reachable : d.isReachable u v = true ↔ v ∈ d.reachable u := by
  rw [isReachable_iff, mem_reachable_iff]

/-- **Breadth-first reachability is exact.** The reachable nodes are listed each once, exactly those
to which a walk along one or more connected edges leads, the start itself exactly if it lies on a
cycle, and none before a nearer one. A node is reachable exactly if it is listed, and from an id that
is no node nothing is. -/
theorem reachable_isExact (d : Diagram) (u : String) :
    (d.reachable u).Nodup ∧
      (∀ v, v ∈ d.reachable u ↔ ∃ k, d.Walks u v k) ∧
      (u ∈ d.reachable u ↔ ∃ cycle, d.IsElementaryCycle cycle ∧ u ∈ cycle) ∧
      ((d.reachable u).Pairwise fun v w => d.distance u v ≤ d.distance u w) ∧
      (∀ v, d.isReachable u v = true ↔ v ∈ d.reachable u) ∧
      (u ∉ d.ids → d.reachable u = [] ∧ ∀ v, d.isReachable u v = false) := by
  refine ⟨d.nodup_reachable u, fun v => ?_, mem_reachable_self_iff, d.pairwise_distance_reachable u,
    fun v => isReachable_iff_mem_reachable, fun hu => ⟨reachable_eq_nil hu, fun v => ?_⟩⟩
  · rw [mem_reachable_iff, exists_walks_iff]
  · rw [← Bool.not_eq_true, isReachable_iff_mem_reachable, reachable_eq_nil hu]
    exact List.not_mem_nil

theorem reachable_isExact_detour :
    detour.reachable "b" = ["c", "a", "b"] ∧
      (∃ cycle, detour.IsElementaryCycle cycle ∧ "b" ∈ cycle) ∧
      detour.distance "b" "c" ≤ detour.distance "b" "b" ∧
      "ghost" ∉ detour.ids ∧ detour.reachable "ghost" = [] ∧
      detour.isReachable "ghost" "c" = false := by
  obtain ⟨-, -, hcycle, hsorted, -⟩ := reachable_isExact detour "b"
  obtain ⟨-, -, -, -, -, hmissing⟩ := reachable_isExact detour "ghost"
  have hlist : detour.reachable "b" = ["c", "a", "b"] := by decide +kernel
  have hghost : "ghost" ∉ detour.ids := by decide
  rw [hlist] at hcycle hsorted
  refine ⟨hlist, hcycle.1 (by decide), ?_, hghost, (hmissing hghost).1, (hmissing hghost).2 "c"⟩
  exact (List.pairwise_cons.1 hsorted).1 "b" (by decide)

end Diagram

end Flowchart
