import Flowchart.Graph.Search
import Mathlib.Data.Fintype.Card
import Mathlib.Logic.Relation

/-!
# Breadth-first search finds what walks lead to

`explore` keeps a queue and the vertices it has seen. Three facts hold at every step (`Explored`):
what is seen is reached by a walk, what is queued is the start or was seen, and whatever left the
queue has all of its successors among the seen. When the queue is empty the last one says that the
seen vertices are closed under steps, so **they are exactly the vertices that walks lead to**. Every
step removes one vertex from the queue, and a vertex enters it at most once besides the start; that
bounds the fuel.

A search can also count its start as seen from the beginning and run over any type, as long as its
successors stay within a list (`Spread`).
-/

namespace Flowchart.Search

variable {α : Type}

/-! ## Walks -/

section Walks

variable {next : α → List α} {u v w : α} {m n : Nat}

/-- A walk goes on by one step at its end. -/
theorem Walk.snoc (h : Walk next u v n) (hw : w ∈ next v) : Walk next u w (n + 1) := by
  induction h with
  | one hv => exact .cons hv (.one hw)
  | cons hv _ ih => exact .cons hv (ih hw)

/-- Some walk leads from `u` to `v` exactly if one or more steps do. -/
theorem exists_walk_iff :
    (∃ n, Walk next u v n) ↔ Relation.TransGen (fun a b => b ∈ next a) u v := by
  constructor
  · rintro ⟨n, h⟩
    induction h with
    | one hv => exact .single hv
    | cons hv _ ih => exact .head hv ih
  · intro h
    induction h with
    | single hv => exact ⟨1, .one hv⟩
    | tail _ hw ih =>
      obtain ⟨n, h⟩ := ih
      exact ⟨n + 1, h.snoc hw⟩

end Walks

/-! ## Breadth first -/

/-- What holds at every step of a search from `start`. -/
structure Explored (next : α → List α) (start : α) (queue seen : List α) : Prop where
  nodup : seen.Nodup
  walk : ∀ v ∈ seen, ∃ n, Walk next start v n
  queued : ∀ v ∈ queue, v = start ∨ v ∈ seen
  closed : ∀ v, v = start ∨ v ∈ seen → v ∉ queue → ∀ w ∈ next v, w ∈ seen

variable {next : α → List α} {start : α}

theorem explored_start (next : α → List α) (start : α) : Explored next start [start] [] where
  nodup := List.nodup_nil
  walk := List.forall_mem_nil _
  queued v hv := Or.inl (List.mem_singleton.1 hv)
  closed v hv hout := by
    rcases hv with rfl | hv
    · exact absurd List.mem_cons_self hout
    · simp at hv

/-- When the queue is empty, every walk ends at a vertex that was seen. -/
theorem Explored.mem_of_walk {seen : List α} (h : Explored next start [] seen) {u v : α} {n : Nat}
    (hu : u = start ∨ u ∈ seen) (hwalk : Walk next u v n) : v ∈ seen := by
  induction hwalk with
  | one hv => exact h.closed _ hu List.not_mem_nil _ hv
  | cons hv _ ih => exact ih (Or.inr (h.closed _ hu List.not_mem_nil _ hv))

variable [DecidableEq α]

theorem nodup_append_fresh {seen : List α} (h : seen.Nodup) (found : List α) :
    (seen ++ fresh seen found).Nodup := by
  refine List.nodup_append.2 ⟨h, nodup_fresh _ _, ?_⟩
  rintro w hseen x hx rfl
  exact (mem_fresh.1 hx).2 hseen

/-- **One step keeps the facts**: the first vertex of the queue gives way to its new successors. -/
theorem Explored.step {v : α} {queue seen : List α} (h : Explored next start (v :: queue) seen) :
    Explored next start (queue ++ fresh seen (next v)) (seen ++ fresh seen (next v)) where
  nodup := nodup_append_fresh h.nodup _
  walk := by
    intro w hw
    rcases List.mem_append.1 hw with hw | hw
    · exact h.walk w hw
    · have hstep : w ∈ next v := (mem_fresh.1 hw).1
      rcases h.queued v List.mem_cons_self with rfl | hv
      · exact ⟨1, .one hstep⟩
      · obtain ⟨n, hwalk⟩ := h.walk v hv
        exact ⟨n + 1, hwalk.snoc hstep⟩
  queued := by
    intro w hw
    rcases List.mem_append.1 hw with hw | hw
    · exact (h.queued w (List.mem_cons_of_mem v hw)).imp_right (List.mem_append_left _)
    · exact Or.inr (List.mem_append_right _ hw)
  closed := by
    intro w hw hout x hx
    rw [List.mem_append, not_or] at hout
    by_cases hwv : w = v
    · subst hwv
      by_cases hseen : x ∈ seen
      · exact List.mem_append_left _ hseen
      · exact List.mem_append_right _ (mem_fresh.2 ⟨hx, hseen⟩)
    · have hold : w = start ∨ w ∈ seen := by
        rcases hw with hw | hw
        · exact Or.inl hw
        · exact Or.inr ((List.mem_append.1 hw).resolve_right hout.2)
      have hqueue : w ∉ v :: queue := by
        rw [List.mem_cons, not_or]
        exact ⟨hwv, hout.1⟩
      exact List.mem_append_left _ (h.closed w hold hqueue x hx)

/-- **What every step keeps holds after a whole search, and then the queue is empty**, given fuel for
a universe that holds all that is seen. -/
theorem explore_induction {P : List α → List α → Prop} {U queue seen : List α} {fuel : Nat}
    (hstep : ∀ v queue seen, P (v :: queue) seen →
      P (queue ++ fresh seen (next v)) (seen ++ fresh seen (next v)))
    (hwithin : ∀ queue seen, P queue seen → seen ⊆ U)
    (h : P queue seen) (hnodup : seen.Nodup)
    (hfuel : queue.length + U.length ≤ fuel + seen.length) :
    P [] (explore next fuel queue seen) := by
  induction fuel generalizing queue seen with
  | zero =>
    have hseen : seen.length ≤ U.length := (hnodup.subperm (hwithin queue seen h)).length_le
    obtain rfl : queue = [] := List.length_eq_zero_iff.1 (by omega)
    exact h
  | succ fuel ih =>
    cases queue with
    | nil => exact h
    | cons v queue =>
      refine ih (hstep v queue seen h) (nodup_append_fresh hnodup _) ?_
      simp only [List.length_append, List.length_cons] at hfuel ⊢
      omega

/-- In a finite type there is fuel for every vertex. -/
theorem explore_induction_of_fintype [Fintype α] {P : List α → List α → Prop} {queue seen : List α}
    {fuel : Nat}
    (hstep : ∀ v queue seen, P (v :: queue) seen →
      P (queue ++ fresh seen (next v)) (seen ++ fresh seen (next v)))
    (h : P queue seen) (hnodup : seen.Nodup)
    (hfuel : queue.length + Fintype.card α ≤ fuel + seen.length) :
    P [] (explore next fuel queue seen) := by
  refine explore_induction (U := Finset.univ.toList) hstep ?_ h hnodup ?_
  · exact fun _ _ _ v _ => Finset.mem_toList.2 (Finset.mem_univ v)
  · rwa [Finset.length_toList]

/-- **A whole search keeps the facts and empties its queue**, given enough fuel. -/
theorem Explored.run [Fintype α] {queue seen : List α} {fuel : Nat}
    (h : Explored next start queue seen)
    (hfuel : queue.length + Fintype.card α ≤ fuel + seen.length) :
    Explored next start [] (explore next fuel queue seen) :=
  explore_induction_of_fintype (fun _ _ _ => Explored.step) h h.nodup hfuel

theorem explored_explore [Fintype α] {fuel : Nat} (hfuel : 1 + Fintype.card α ≤ fuel) :
    Explored next start [] (explore next fuel [start] []) :=
  (explored_start next start).run (by simpa using hfuel)

/-- **The search meets exactly the vertices that walks lead to.** -/
theorem mem_explore_iff [Fintype α] {v : α} {fuel : Nat} (hfuel : 1 + Fintype.card α ≤ fuel) :
    v ∈ explore next fuel [start] [] ↔ ∃ n, Walk next start v n := by
  constructor
  · exact (explored_explore hfuel).walk v
  · rintro ⟨n, hwalk⟩
    exact (explored_explore hfuel).mem_of_walk (Or.inl rfl) hwalk

/-! ## Searches that count their start as seen -/

/-- What holds at every step of such a search: what is queued was seen, what is seen is led to, and
whatever left the queue has all of its successors among the seen. -/
structure Spread (next : α → List α) (start : α) (queue seen : List α) : Prop where
  start_mem : start ∈ seen
  led : ∀ v ∈ seen, Relation.ReflTransGen (fun a b => b ∈ next a) start v
  queued : queue ⊆ seen
  closed : ∀ v ∈ seen, v ∉ queue → next v ⊆ seen

theorem Spread.step {v : α} {queue seen : List α} (h : Spread next start (v :: queue) seen) :
    Spread next start (queue ++ fresh seen (next v)) (seen ++ fresh seen (next v)) where
  start_mem := List.mem_append_left _ h.start_mem
  led := by
    intro w hw
    rcases List.mem_append.1 hw with hw | hw
    · exact h.led w hw
    · exact (h.led v (h.queued List.mem_cons_self)).tail (mem_fresh.1 hw).1
  queued := by
    intro w hw
    rcases List.mem_append.1 hw with hw | hw
    · exact List.mem_append_left _ (h.queued (List.mem_cons_of_mem v hw))
    · exact List.mem_append_right _ hw
  closed := by
    intro w hw hout x hx
    rw [List.mem_append, not_or] at hout
    have hseen : w ∈ seen := (List.mem_append.1 hw).resolve_right hout.2
    by_cases hwv : w = v
    · subst hwv
      by_cases hold : x ∈ seen
      · exact List.mem_append_left _ hold
      · exact List.mem_append_right _ (mem_fresh.2 ⟨hx, hold⟩)
    · have hqueue : w ∉ v :: queue := by
        rw [List.mem_cons, not_or]
        exact ⟨hwv, hout.1⟩
      exact List.mem_append_left _ (h.closed w hseen hqueue hx)

/-- **The search sees exactly what successors lead to, the start included**, given fuel for a universe
that no successor leaves. -/
theorem mem_explore_self_iff {U : List α} {v : α} {fuel : Nat} (hstart : start ∈ U)
    (hnext : ∀ w, next w ⊆ U) (hfuel : U.length ≤ fuel) :
    v ∈ explore next fuel [start] [start] ↔
      Relation.ReflTransGen (fun a b => b ∈ next a) start v := by
  have hspread : Spread next start [start] [start] := by
    refine ⟨List.mem_singleton_self start, ?_, List.Subset.refl _, ?_⟩
    · intro w hw
      rw [List.mem_singleton.1 hw]
    · exact fun w hw hout => absurd hw hout
  have hrun : explore next fuel [start] [start] ⊆ U ∧
      Spread next start [] (explore next fuel [start] [start]) := by
    refine explore_induction (P := fun queue seen => seen ⊆ U ∧ Spread next start queue seen)
      ?_ (fun _ _ h => h.1) ⟨?_, hspread⟩ (List.nodup_singleton start) ?_
    · rintro w queue seen ⟨hseen, h⟩
      exact ⟨List.append_subset.2 ⟨hseen, fun x hx => hnext w (mem_fresh.1 hx).1⟩, h.step⟩
    · exact List.cons_subset.2 ⟨hstart, List.nil_subset _⟩
    · simpa [Nat.add_comm] using hfuel
  obtain ⟨-, hrun⟩ := hrun
  refine ⟨hrun.led v, fun hled => ?_⟩
  induction hled with
  | refl => exact hrun.start_mem
  | tail _ hstep ih => exact hrun.closed _ ih List.not_mem_nil hstep

end Flowchart.Search
