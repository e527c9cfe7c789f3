import Flowchart.Proofs.Graph.Leads
import Mathlib.Data.Fintype.Basic
import Mathlib.Order.Bounds.Basic

/-!
# A survey notes the shortest distance

A survey meets the successors of the first vertex of its queue one level further. While they are
gone through, the levels of the vertices that were met span two levels, that of this vertex and the
next one, and the queue is in their order (`Survey.Sound`). So whatever left the queue below the
limit has all of its successors at most one level further, and when the queue is empty **the level of
a vertex is the least number of steps that lead to it**.

Every step removes one vertex from the queue, and a vertex joins it when it is met, that is, once;
that bounds the fuel.
-/

namespace Flowchart

namespace Search

variable {α : Type} {R : α → α → Prop} {u v w : α} {k : Nat}

/-! ## Counted steps -/

/-- A number of steps of a relation, one after the other, lead from one vertex to another. -/
inductive Steps (R : α → α → Prop) (u : α) : α → Nat → Prop
  | none : Steps R u u 0
  | snoc {v w : α} {k : Nat} : Steps R u v k → R v w → Steps R u w (k + 1)

/-- Some number of steps leads from `u` to `v` exactly if they are the same or steps lead there. -/
theorem exists_steps_iff : (∃ k, Steps R u v k) ↔ v = u ∨ Relation.TransGen R u v := by
  rw [← Relation.reflTransGen_iff_eq_or_transGen]
  constructor
  · rintro ⟨k, h⟩
    induction h with
    | none => exact .refl
    | snoc _ hstep ih => exact ih.tail hstep
  · intro h
    induction h with
    | refl => exact ⟨0, .none⟩
    | tail _ hstep ih =>
      obtain ⟨k, h⟩ := ih
      exact ⟨k + 1, h.snoc hstep⟩

/-- Some positive number of steps leads from `u` to `v` exactly if one or more steps do. -/
theorem exists_steps_pos_iff : (∃ k, 0 < k ∧ Steps R u v k) ↔ Relation.TransGen R u v := by
  constructor
  · rintro ⟨k, hpos, h⟩
    cases h with
    | none => exact absurd hpos (lt_irrefl 0)
    | snoc hsteps hstep =>
      have hbefore := Relation.reflTransGen_iff_eq_or_transGen.2 (exists_steps_iff.1 ⟨_, hsteps⟩)
      exact .tail' hbefore hstep
  · intro h
    obtain ⟨w, hbefore, hstep⟩ := Relation.TransGen.tail'_iff.1 h
    obtain ⟨k, hsteps⟩ := exists_steps_iff.2 (Relation.reflTransGen_iff_eq_or_transGen.1 hbefore)
    exact ⟨k + 1, Nat.succ_pos k, hsteps.snoc hstep⟩

/-- Steps go on by one at their start. -/
theorem Steps.cons (huv : R u v) (h : Steps R v w k) : Steps R u w (k + 1) := by
  induction h with
  | none => exact .snoc .none huv
  | snoc _ hstep ih => exact ih.snoc hstep

end Search

open Search (Steps)

namespace Survey

variable {n : Nat} {arcs : Arcs n} {root v w : Fin n} {limit? : Option Nat} {s t : Survey n}
  {front k : Nat} {left : List (Fin n)}

/-! ## Meeting one vertex -/

/-- Meeting a vertex changes its level only, and only if it has none. -/
theorem level_meet (s : Survey n) (v w : Fin n) :
    (s.meet k v).level.get w =
      if v = w ∧ s.level.get v = none then some k else s.level.get w := by
  unfold meet
  split
  · next hmet => simp [hmet]
  · next hnone =>
    show (s.level.set v (some k) v.isLt)[w] = _
    simp only [Fin.getElem_fin, Vector.getElem_set, Fin.val_inj, hnone, and_true]
    rfl

/-- A level that was noted stays. -/
theorem level_meet_of_eq_some {i : Nat} (h : s.level.get w = some i) :
    (s.meet k v).level.get w = some i := by
  rw [level_meet, if_neg]
  · exact h
  · rintro ⟨rfl, hnone⟩
    rw [h] at hnone
    exact absurd hnone (by simp)

/-- The vertices that have not been met. -/
def unmet (s : Survey n) : Finset (Fin n) := {v | s.level.get v = none}

/-- The number of steps that are still to come at most. -/
def work (s : Survey n) : Nat := s.unmet.card + s.queue.length

/-- A vertex that is met moves from the unmet ones to the queue. -/
theorem work_meet (s : Survey n) (k : Nat) (v : Fin n) : (s.meet k v).work = s.work := by
  cases hv : s.level.get v with
  | some i =>
    have hsame : s.meet k v = s := by simp [meet, hv]
    rw [hsame]
  | none =>
    have hunmet : (s.meet k v).unmet = s.unmet.erase v := by
      ext w
      simp only [unmet, Finset.mem_filter, Finset.mem_univ, true_and, Finset.mem_erase, level_meet]
      by_cases hvw : v = w
      · subst hvw
        simp [hv]
      · simp [hvw, Ne.symm hvw]
    have hqueue : (s.meet k v).queue = s.queue ++ [v] := by simp [meet, hv]
    have hmem : v ∈ s.unmet := by simp [unmet, hv]
    have hpos : 0 < s.unmet.card := Finset.card_pos.2 ⟨v, hmem⟩
    rw [work, work, hunmet, hqueue, Finset.card_erase_of_mem hmem, List.length_append,
      List.length_singleton]
    omega

theorem work_foldl_meet (s : Survey n) (k : Nat) (left : List (Fin n)) :
    (left.foldl (meet k) s).work = s.work := by
  induction left generalizing s with
  | nil => rfl
  | cons v left ih => rw [List.foldl_cons, ih, work_meet]

/-! ## The invariant -/

/-- The limit admits this level. -/
def Admits (limit? : Option Nat) (k : Nat) : Prop := ∀ limit ∈ limit?, k ≤ limit

/-- A vertex lies at the limit exactly if no further level is admitted. -/
theorem any_le_iff : (limit?.any fun limit => limit ≤ k) = true ↔ ¬ Admits limit? (k + 1) := by
  cases limit? with
  | none => simp [Admits]
  | some limit =>
    rw [Option.any_some, decide_eq_true_iff, Admits]
    simp only [Option.mem_some_iff, forall_eq']
    omega

/-- What holds while the successors of a vertex on the level `front` are met, those in `left` still
to come: levels are counted steps that the limit admits; they go at most one beyond the front; the
queue holds vertices from the front on, in order; and whatever left the queue below the limit has its
successors at most one level further, unless they are still to come. -/
structure Sound (arcs : Arcs n) (root : Fin n) (limit? : Option Nat) (front : Nat)
    (left : List (Fin n)) (s : Survey n) : Prop where
  level_root : s.level.get root = some 0
  steps : ∀ v k, s.level.get v = some k →
    Steps (fun a b => (a, b) ∈ arcs) root v k ∧ Admits limit? k
  coming : ∀ v ∈ left, Steps (fun a b => (a, b) ∈ arcs) root v (front + 1) ∧
    Admits limit? (front + 1)
  span : ∀ v k, s.level.get v = some k → k ≤ front + 1
  queued : ∀ v ∈ s.queue, ∃ k, s.level.get v = some k ∧ front ≤ k
  sorted : s.queue.Pairwise fun u v =>
    ∀ i j, s.level.get u = some i → s.level.get v = some j → i ≤ j
  passed : ∀ v k, s.level.get v = some k → v ∉ s.queue → Admits limit? (k + 1) →
    ∀ w, (v, w) ∈ arcs → (∃ j ≤ k + 1, s.level.get w = some j) ∨ w ∈ left ∧ k = front

theorem level_initial (root v : Fin n) :
    (initial root).level.get v = if root = v then some 0 else none := by
  show ((Vector.replicate n none).set root (some 0) root.isLt)[v] = _
  simp only [Fin.getElem_fin, Vector.getElem_set, Fin.val_inj, Vector.getElem_replicate]

theorem sound_initial (arcs : Arcs n) (root : Fin n) (limit? : Option Nat) :
    Sound arcs root limit? 0 [] (initial root) := by
  have honly : ∀ v k, (initial root).level.get v = some k → root = v ∧ k = 0 := by
    intro v k hv
    rw [level_initial] at hv
    split at hv
    · next h => exact ⟨h, (Option.some.inj hv).symm⟩
    · exact absurd hv (by simp)
  constructor
  · rw [level_initial, if_pos rfl]
  · intro v k hv
    obtain ⟨rfl, rfl⟩ := honly v k hv
    exact ⟨.none, fun limit _ => Nat.zero_le limit⟩
  · exact List.forall_mem_nil _
  · intro v k hv
    obtain ⟨-, rfl⟩ := honly v k hv
    omega
  · intro v hv
    obtain rfl := List.mem_singleton.1 hv
    exact ⟨0, by rw [level_initial, if_pos rfl], Nat.zero_le 0⟩
  · exact List.pairwise_singleton _ _
  · intro v k hv hout
    obtain ⟨rfl, -⟩ := honly v k hv
    exact absurd (List.mem_singleton_self root) hout

/-- Nothing is left to do for a successor that was met before. -/
theorem Sound.skip {i : Nat} (h : Sound arcs root limit? front (v :: left) s)
    (hv : s.level.get v = some i) : Sound arcs root limit? front left s where
  level_root := h.level_root
  steps := h.steps
  coming w hw := h.coming w (List.mem_cons_of_mem v hw)
  span := h.span
  queued := h.queued
  sorted := h.sorted
  passed := by
    intro u k hu hout hadmits w harc
    rcases h.passed u k hu hout hadmits w harc with hmet | ⟨hw, rfl⟩
    · exact Or.inl hmet
    · rcases List.mem_cons.1 hw with rfl | hw
      · exact Or.inl ⟨i, h.span w i hv, hv⟩
      · exact Or.inr ⟨hw, rfl⟩

/-- **Meeting a successor keeps the invariant.** -/
theorem Sound.meet (h : Sound arcs root limit? front (v :: left) s) :
    Sound arcs root limit? front left (s.meet (front + 1) v) := by
  cases hv : s.level.get v with
  | some i =>
    have hsame : s.meet (front + 1) v = s := by simp [Survey.meet, hv]
    rw [hsame]
    exact h.skip hv
  | none =>
    have hqueue : (s.meet (front + 1) v).queue = s.queue ++ [v] := by simp [Survey.meet, hv]
    -- the levels are those from before, and that of the vertex
    have hlevel : ∀ w k, (s.meet (front + 1) v).level.get w = some k →
        v = w ∧ k = front + 1 ∨ s.level.get w = some k := by
      intro w k hw
      rw [level_meet] at hw
      split at hw
      · next heq => exact Or.inl ⟨heq.1, (Option.some.inj hw).symm⟩
      · exact Or.inr hw
    have hself : (s.meet (front + 1) v).level.get v = some (front + 1) := by
      rw [level_meet, if_pos ⟨rfl, hv⟩]
    -- what was queued is queued on the level on which it was
    have hqueued : ∀ u ∈ s.queue, ∀ i, (s.meet (front + 1) v).level.get u = some i →
        s.level.get u = some i := by
      intro u hu i hi
      obtain ⟨k, hk, -⟩ := h.queued u hu
      rwa [level_meet_of_eq_some hk, ← hk] at hi
    constructor
    · exact level_meet_of_eq_some h.level_root
    · intro w k hw
      rcases hlevel w k hw with ⟨rfl, rfl⟩ | hw
      · exact h.coming v List.mem_cons_self
      · exact h.steps w k hw
    · exact fun w hw => h.coming w (List.mem_cons_of_mem v hw)
    · intro w k hw
      rcases hlevel w k hw with ⟨-, rfl⟩ | hw
      · omega
      · exact h.span w k hw
    · intro u hu
      rw [hqueue, List.mem_append, List.mem_singleton] at hu
      rcases hu with hu | rfl
      · obtain ⟨k, hk, hle⟩ := h.queued u hu
        exact ⟨k, level_meet_of_eq_some hk, hle⟩
      · exact ⟨front + 1, hself, by omega⟩
    · rw [hqueue, List.pairwise_append]
      refine ⟨h.sorted.imp_of_mem ?_, List.pairwise_singleton _ _, ?_⟩
      · intro a b ha hb hle i j hi hj
        exact hle i j (hqueued a ha i hi) (hqueued b hb j hj)
      · intro a ha b hb i j hi hj
        obtain rfl := List.mem_singleton.1 hb
        obtain rfl : front + 1 = j := Option.some.inj (hself.symm.trans hj)
        exact h.span a i (hqueued a ha i hi)
    · intro u k hu hout hadmits w harc
      rw [hqueue, List.mem_append, List.mem_singleton, not_or] at hout
      rcases hlevel u k hu with ⟨rfl, -⟩ | hu
      · exact absurd rfl hout.2
      · rcases h.passed u k hu hout.1 hadmits w harc with ⟨j, hj, hw⟩ | ⟨hw, rfl⟩
        · exact Or.inl ⟨j, hj, level_meet_of_eq_some hw⟩
        · rcases List.mem_cons.1 hw with rfl | hw
          · exact Or.inl ⟨k + 1, le_refl _, hself⟩
          · exact Or.inr ⟨hw, rfl⟩

theorem Sound.foldl_meet (h : Sound arcs root limit? front left s) :
    Sound arcs root limit? front [] (left.foldl (Survey.meet (front + 1)) s) := by
  induction left generalizing s with
  | nil => exact h
  | cons v left ih => exact ih h.meet

/-! ## One step and the whole survey -/

/-- The first vertex of the queue leaves it and brings the front to its level; its successors are
still to come if the limit admits a further level. -/
theorem Sound.dequeue {queue : List (Fin n)} (h : Sound arcs root limit? front [] s)
    (hqueue : s.queue = v :: queue) (hv : s.level.get v = some k)
    (hleft : ∀ w, (v, w) ∈ arcs → Admits limit? (k + 1) → w ∈ left)
    (hcoming : ∀ w ∈ left, (v, w) ∈ arcs ∧ Admits limit? (k + 1)) :
    Sound arcs root limit? k left { s with queue } := by
  have hsorted := h.sorted
  rw [hqueue] at hsorted
  obtain ⟨hfirst, hrest⟩ := List.pairwise_cons.1 hsorted
  have hfront : front ≤ k := by
    obtain ⟨i, hi, hle⟩ := h.queued v (by rw [hqueue]; exact List.mem_cons_self)
    obtain rfl := Option.some.inj (hi.symm.trans hv)
    exact hle
  constructor
  · exact h.level_root
  · exact h.steps
  · intro w hw
    obtain ⟨harc, hadmits⟩ := hcoming w hw
    exact ⟨(h.steps v k hv).1.snoc harc, hadmits⟩
  · intro w i hw
    have hle := h.span w i hw
    omega
  · intro w hw
    obtain ⟨i, hi, -⟩ := h.queued w (by rw [hqueue]; exact List.mem_cons_of_mem v hw)
    exact ⟨i, hi, hfirst w hw k i hv hi⟩
  · exact hrest
  · intro u i hu hout hadmits w harc
    by_cases huv : u = v
    · subst huv
      obtain rfl := Option.some.inj (hv.symm.trans hu)
      exact Or.inr ⟨hleft w harc hadmits, rfl⟩
    · have hold : u ∉ s.queue := by
        rw [hqueue, List.mem_cons, not_or]
        exact ⟨huv, hout⟩
      rcases h.passed u i hu hold hadmits w harc with hmet | ⟨hnil, -⟩
      · exact Or.inl hmet
      · exact absurd hnil List.not_mem_nil

/-- **One step keeps the invariant** and leaves one step less to come. -/
theorem Sound.step (h : Sound arcs root limit? front [] s) (hstep : s.step? arcs limit? = some t) :
    (∃ front', Sound arcs root limit? front' [] t) ∧ t.work + 1 = s.work := by
  unfold step? at hstep
  split at hstep
  · exact absurd hstep (by simp)
  · next v queue hqueue =>
    have hwork : ({ s with queue } : Survey n).work + 1 = s.work := by
      show s.unmet.card + queue.length + 1 = s.unmet.card + s.queue.length
      rw [hqueue, List.length_cons]
      omega
    split at hstep
    · next hnone =>
      obtain ⟨i, hi, -⟩ := h.queued v (by rw [hqueue]; exact List.mem_cons_self)
      exact absurd (hnone.symm.trans hi) (by simp)
    · next level hlevel =>
      split at hstep
      -- the vertex lies at the limit, so nothing is to come
      · next hlimit =>
        obtain rfl := Option.some.inj hstep
        have hnone : ∀ w, (v, w) ∈ arcs → Admits limit? (level + 1) → w ∈ [] :=
          fun w _ hadmits => absurd hadmits (any_le_iff.1 hlimit)
        exact ⟨⟨level, h.dequeue hqueue hlevel hnone (List.forall_mem_nil _)⟩, hwork⟩
      · next hlimit =>
        obtain rfl := Option.some.inj hstep
        have hadmits : Admits limit? (level + 1) := not_not.1 (mt any_le_iff.2 hlimit)
        have hdequeued : Sound arcs root limit? level (arcs.successors v) { s with queue } :=
          h.dequeue hqueue hlevel (fun w harc _ => Arcs.mem_successors.2 harc)
            fun w hw => ⟨Arcs.mem_successors.1 hw, hadmits⟩
        refine ⟨⟨level, hdequeued.foldl_meet⟩, ?_⟩
        rw [work_foldl_meet]
        exact hwork

/-- **A whole survey keeps the invariant and empties its queue**, given enough fuel. -/
theorem Sound.run {fuel : Nat} (h : Sound arcs root limit? front [] s) (hfuel : s.work ≤ fuel) :
    (∃ front', Sound arcs root limit? front' [] (s.run arcs limit? fuel)) ∧
      (s.run arcs limit? fuel).queue = [] := by
  induction fuel generalizing s front with
  | zero =>
    refine ⟨⟨front, h⟩, List.length_eq_zero_iff.1 ?_⟩
    show s.queue.length = 0
    unfold work at hfuel
    omega
  | succ fuel ih =>
    rw [Survey.run]
    split
    · next hdone =>
      refine ⟨⟨front, h⟩, ?_⟩
      -- a step is refused only when the queue is empty
      unfold step? at hdone
      split at hdone
      · assumption
      · split at hdone
        · exact absurd hdone (by simp)
        · split at hdone <;> exact absurd hdone (by simp)
    · next t hstep =>
      obtain ⟨⟨front', hsound⟩, hwork⟩ := h.step hstep
      exact ih hsound (by omega)

theorem work_initial (root : Fin n) : (initial root).work ≤ n := by
  have hunmet : (initial root).unmet ⊆ Finset.univ.erase root := by
    intro v hv
    rw [unmet, Finset.mem_filter, level_initial] at hv
    rw [Finset.mem_erase]
    refine ⟨fun heq => ?_, Finset.mem_univ v⟩
    rw [if_pos heq.symm] at hv
    exact absurd hv.2 (by simp)
  have hcard := Finset.card_le_card hunmet
  rw [Finset.card_erase_of_mem (Finset.mem_univ root), Finset.card_univ, Fintype.card_fin] at hcard
  have hn : 0 < n := Fin.pos root
  show (initial root).unmet.card + 1 ≤ n
  omega

/-- When the queue is empty, every admitted number of steps bounds a level. -/
theorem Sound.exists_level (h : Sound arcs root limit? front [] s) (hqueue : s.queue = [])
    (hsteps : Steps (fun a b => (a, b) ∈ arcs) root v k) (hadmits : Admits limit? k) :
    ∃ i ≤ k, s.level.get v = some i := by
  induction hsteps with
  | none => exact ⟨0, le_refl 0, h.level_root⟩
  | @snoc u w k _ harc ih =>
    obtain ⟨i, hi, hu⟩ := ih fun limit hlimit => Nat.le_of_succ_le (hadmits limit hlimit)
    have hfurther : Admits limit? (i + 1) := fun limit hlimit => by
      have hle := hadmits limit hlimit
      omega
    have hout : u ∉ s.queue := by
      rw [hqueue]
      exact List.not_mem_nil
    rcases h.passed u i hu hout hfurther w harc with ⟨j, hj, hw⟩ | ⟨hnil, -⟩
    · exact ⟨j, by omega, hw⟩
    · exact absurd hnil List.not_mem_nil

end Survey

namespace Arcs

open Survey (Admits)

variable {n : Nat} {arcs : Arcs n} {root v : Fin n} {limit? : Option Nat} {k : Nat}

/-- **The level of a vertex is the least number of steps that lead to it**, if the limit admits it. -/
theorem levels_eq_some_iff :
    (arcs.levels root limit?).get v = some k ↔
      IsLeast {k | Steps (fun a b => (a, b) ∈ arcs) root v k} k ∧ Admits limit? k := by
  obtain ⟨⟨front, hsound⟩, hqueue⟩ :=
    (Survey.sound_initial arcs root limit?).run (Survey.work_initial root)
  constructor
  · intro hlevel
    obtain ⟨hsteps, hadmits⟩ := hsound.steps v k hlevel
    refine ⟨⟨hsteps, fun m hm => ?_⟩, hadmits⟩
    by_contra hlt
    obtain ⟨i, hi, hv⟩ := hsound.exists_level hqueue hm fun limit hlimit => by
      have hle := hadmits limit hlimit
      omega
    obtain rfl := Option.some.inj (hlevel.symm.trans hv)
    exact hlt hi
  · rintro ⟨⟨hsteps, hleast⟩, hadmits⟩
    obtain ⟨i, hi, hv⟩ := hsound.exists_level hqueue hsteps hadmits
    obtain rfl : i = k := le_antisymm hi (hleast (hsound.steps v i hv).1)
    exact hv

/-- **A vertex has a level exactly if an admitted number of steps leads to it.** -/
theorem isSome_levels_iff :
    ((arcs.levels root limit?).get v).isSome = true ↔
      ∃ k, Steps (fun a b => (a, b) ∈ arcs) root v k ∧ Admits limit? k := by
  rw [Option.isSome_iff_exists]
  constructor
  · rintro ⟨k, hk⟩
    obtain ⟨⟨hsteps, -⟩, hadmits⟩ := levels_eq_some_iff.1 hk
    exact ⟨k, hsteps, hadmits⟩
  · rintro ⟨k, hsteps, hadmits⟩
    classical
    have hsome : ∃ k, Steps (fun a b => (a, b) ∈ arcs) root v k := ⟨k, hsteps⟩
    have hle : Nat.find hsome ≤ k := Nat.find_min' hsome hsteps
    refine ⟨Nat.find hsome, levels_eq_some_iff.2 ⟨⟨Nat.find_spec hsome, ?_⟩, ?_⟩⟩
    · exact fun m hm => Nat.find_min' hsome hm
    · exact fun limit hlimit => le_trans hle (hadmits limit hlimit)

end Arcs

end Flowchart
