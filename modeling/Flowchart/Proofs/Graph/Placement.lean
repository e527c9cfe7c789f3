import Flowchart.Graph.Order
import Mathlib.Data.Fintype.Card
import Mathlib.Data.List.Lex
import Mathlib.Data.List.Nodup
import Mathlib.Logic.Relation

/-!
# Placing ready vertices one after the other

While the successors of a placed vertex are gone through, every vertex waits for its arcs from
vertices that are not placed, and for those of the successors that are still to come
(`Placement.Sound`). Three facts follow:

* an arc is taken off only where one is counted;
* the ready vertices are those that are not placed and wait for nothing, so placing the earliest of
  them makes **the order greedy** (`Arcs.IsGreedy`), and a greedy order comes first
  lexicographically among the orders in which every arc points forward;
* when no vertex is ready, each vertex that is not placed has a predecessor that is not placed, and
  **walking backwards closes a cycle** (`Arcs.Closes`).
-/

namespace Flowchart

variable {n : Nat} {arcs : Arcs n}

namespace Arcs

/-! ## Greedy orders -/

/-- The vertex does not occur before, and all of its predecessors do. -/
def Available (arcs : Arcs n) (before : List (Fin n)) (v : Fin n) : Prop :=
  v ∉ before ∧ ∀ u, (u, v) ∈ arcs → u ∈ before

/-- Every vertex of the list is available when its turn comes. -/
def IsForward (arcs : Arcs n) (order : List (Fin n)) : Prop :=
  ∀ before v after, order = before ++ v :: after → arcs.Available before v

/-- Every vertex of the list is the earliest available one when its turn comes. -/
def IsGreedy (arcs : Arcs n) (order : List (Fin n)) : Prop :=
  ∀ before v after, order = before ++ v :: after →
    arcs.Available before v ∧ ∀ w, arcs.Available before w → v ≤ w

variable {order other : List (Fin n)} {u v : Fin n}

/-- A greedy order is a forward one. -/
theorem IsGreedy.isForward (h : arcs.IsGreedy order) : arcs.IsForward order :=
  fun before v after hsplit => (h before v after hsplit).1

/-- No vertex comes twice in a forward order. -/
theorem IsForward.nodup (h : arcs.IsForward order) : order.Nodup := by
  rw [List.nodup_iff_sublist]
  intro v hsublist
  obtain ⟨first, rest, rfl, hfirst, hrest⟩ := List.cons_sublist_iff.1 hsublist
  obtain ⟨before, after, rfl⟩ := List.append_of_mem (List.singleton_sublist.1 hrest)
  have hout := (h (first ++ before) v after (List.append_assoc _ _ _).symm).1
  exact hout (List.mem_append_left _ hfirst)

/-- In a forward order arcs point forward. -/
theorem IsForward.idxOf_lt (h : arcs.IsForward order) (harc : (u, v) ∈ arcs) (hv : v ∈ order) :
    order.idxOf u < order.idxOf v := by
  obtain ⟨before, after, rfl⟩ := List.append_of_mem hv
  obtain ⟨hout, hpredecessors⟩ := h before v after rfl
  have hu := hpredecessors u harc
  rw [List.idxOf_append_of_mem hu, List.idxOf_append_of_notMem hout]
  exact Nat.lt_of_lt_of_le (List.idxOf_lt_length_of_mem hu) (Nat.le_add_right _ _)

/-- Where arcs point forward in a list without repetition of all vertices, it is a forward order. -/
theorem isForward_of_idxOf_lt (hnodup : order.Nodup) (hall : ∀ v, v ∈ order)
    (h : ∀ u v, (u, v) ∈ arcs → order.idxOf u < order.idxOf v) : arcs.IsForward order := by
  rintro before v after rfl
  have hout : v ∉ before := fun hv => (List.nodup_append.1 hnodup).2.2 v hv v List.mem_cons_self rfl
  refine ⟨hout, fun u harc => ?_⟩
  have hlt := h u v harc
  rw [List.idxOf_append_of_notMem hout, List.idxOf_cons_self] at hlt
  by_contra hu
  rw [List.idxOf_append_of_notMem hu] at hlt
  omega

/-- Behind a greedy order may follow the earliest available vertex. -/
theorem IsGreedy.concat (h : arcs.IsGreedy order) (hv : arcs.Available order v)
    (hleast : ∀ w, arcs.Available order w → v ≤ w) : arcs.IsGreedy (order ++ [v]) := by
  intro before w after hsplit
  rcases List.eq_nil_or_concat after with rfl | ⟨middle, last, rfl⟩
  · obtain ⟨rfl, hlast⟩ := List.append_inj' hsplit rfl
    obtain rfl : v = w := by simpa using hlast
    exact ⟨hv, hleast⟩
  · rw [List.concat_eq_append, ← List.cons_append, ← List.append_assoc] at hsplit
    exact h before w middle (List.append_inj' hsplit rfl).1

/-- **A greedy order comes first** among the forward orders of its length. -/
theorem IsGreedy.le (hgreedy : arcs.IsGreedy order) (hforward : arcs.IsForward other)
    (hlength : order.length = other.length) : order ≤ other := by
  -- by induction on what is left behind a common beginning
  have hrest : ∀ rest before rest', arcs.IsGreedy (before ++ rest) →
      arcs.IsForward (before ++ rest') → rest.length = rest'.length → rest ≤ rest' := by
    intro rest
    induction rest with
    | nil =>
      intro before rest' _ _ hlength
      rw [List.length_eq_zero_iff.1 hlength.symm]
    | cons v rest ih =>
      intro before rest' hgreedy hforward hlength
      cases rest' with
      | nil => exact absurd hlength (by simp)
      | cons w rest' =>
        have hle : v ≤ w := (hgreedy before v rest rfl).2 w (hforward before w rest' rfl)
        rcases lt_or_eq_of_le hle with hlt | rfl
        · exact le_of_lt (List.cons_lt_cons_iff.2 (Or.inl hlt))
        · rw [← List.singleton_append, ← List.append_assoc] at hgreedy
          rw [← List.singleton_append (l := rest'), ← List.append_assoc] at hforward
          have htail := ih (before ++ [v]) rest' hgreedy hforward (by simpa using hlength)
          rcases eq_or_lt_of_le htail with rfl | hlt
          · exact le_refl _
          · exact le_of_lt (List.cons_lt_cons_iff.2 (Or.inr ⟨rfl, hlt⟩))
  exact hrest order [] other hgreedy hforward hlength

/-! ## Counting arcs -/

/-- The number of arcs into `v` from vertices that are not placed. -/
def waiting (arcs : Arcs n) (placed : List (Fin n)) (v : Fin n) : Nat :=
  (arcs.predecessors v).countP fun u => !placed.contains u

/-- Both neighbour lists hold an arc equally often. -/
theorem count_predecessors (arcs : Arcs n) (u v : Fin n) :
    (arcs.predecessors v).count u = (arcs.successors u).count v := by
  induction arcs with
  | nil => rfl
  | cons a arcs ih =>
    obtain ⟨x, y⟩ := a
    simp only [predecessors, successors] at ih ⊢
    by_cases hy : y = v <;> by_cases hx : x = u <;>
      simp [hx, hy, ih]

/-- A vertex waits for nothing exactly if all of its predecessors are placed. -/
theorem waiting_eq_zero_iff {placed : List (Fin n)} :
    arcs.waiting placed v = 0 ↔ ∀ u, (u, v) ∈ arcs → u ∈ placed := by
  rw [waiting, List.countP_eq_zero]
  simp only [Bool.not_eq_true', List.contains_eq_mem, decide_eq_false_iff_not, not_not,
    mem_predecessors]

/-- Placing a vertex takes off as many arcs as lead from it. -/
theorem waiting_concat {placed : List (Fin n)} (hu : u ∉ placed) (v : Fin n) :
    arcs.waiting placed v = arcs.waiting (placed ++ [u]) v + (arcs.successors u).count v := by
  rw [← count_predecessors, waiting, waiting]
  induction arcs.predecessors v with
  | nil => rfl
  | cons w ws ih =>
    rw [List.countP_cons, List.countP_cons, List.count_cons, ih]
    by_cases hw : w = u
    · subst hw
      simp [hu]
      omega
    · simp [hw]
      omega

end Arcs

namespace Placement

open Arcs (waiting waiting_eq_zero_iff waiting_concat)

variable {s t : Placement n} {v w : Fin n} {left : List (Fin n)}

/-! ## The ready vertices -/

theorem mem_insertReady {l : List (Fin n)} : w ∈ insertReady v l ↔ w = v ∨ w ∈ l := by
  induction l with
  | nil => simp [insertReady]
  | cons x l ih =>
    rw [insertReady]
    split
    · exact List.mem_cons
    · rw [List.mem_cons, ih, List.mem_cons]
      tauto

/-- Inserting a ready vertex keeps the others in order. -/
theorem pairwise_insertReady {l : List (Fin n)} (h : l.Pairwise (· < ·)) (hv : v ∉ l) :
    (insertReady v l).Pairwise (· < ·) := by
  induction l with
  | nil => exact List.pairwise_singleton _ _
  | cons x l ih =>
    obtain ⟨hx, hl⟩ := List.pairwise_cons.1 h
    rw [List.mem_cons, not_or] at hv
    rw [insertReady]
    split
    · next hlt =>
      refine List.pairwise_cons.2 ⟨?_, h⟩
      exact List.forall_mem_cons.2 ⟨hlt, fun y hy => lt_trans hlt (hx y hy)⟩
    · next hge =>
      refine List.pairwise_cons.2 ⟨fun y hy => ?_, ih hl hv.2⟩
      rcases mem_insertReady.1 hy with rfl | hy
      · exact lt_of_le_of_ne (not_lt.1 hge) (Ne.symm hv.1)
      · exact hx y hy

/-! ## The invariant -/

/-- What holds at every step, where the successors in `left` of the vertex that was placed last are
still to be released. -/
structure Sound (arcs : Arcs n) (left : List (Fin n)) (s : Placement n) : Prop where
  pending_eq : ∀ v : Fin n, s.pending.get v = arcs.waiting s.placed v + left.count v
  settled : ∀ v ∈ s.placed, s.pending.get v = 0
  mem_ready : ∀ v : Fin n, v ∈ s.ready ↔ v ∉ s.placed ∧ s.pending.get v = 0
  sorted : s.ready.Pairwise (· < ·)
  greedy : arcs.IsGreedy s.placed

/-- **At the start nothing is placed**, and every vertex waits for all of its arcs. -/
theorem sound_initial (arcs : Arcs n) : Sound arcs [] (initial arcs) where
  pending_eq v := by
    show (initial arcs).pending[v] = _
    simp [initial, waiting]
  settled := List.forall_mem_nil _
  mem_ready v := by
    show v ∈ (initial arcs).ready ↔ v ∉ (initial arcs).placed ∧ (initial arcs).pending[v] = 0
    simp [initial, List.isEmpty_iff]
  sorted := (List.pairwise_lt_finRange n).filter _
  greedy before v after h := absurd h (by simp [initial])

/-- **An arc is counted for every successor that is to be released**, so taking it off leaves the
number of the others. -/
theorem Sound.pending_pos (h : Sound arcs (v :: left) s) : 0 < s.pending.get v := by
  rw [h.pending_eq, List.count_cons_self]
  omega

theorem pending_release (s : Placement n) (v w : Fin n) :
    (s.release v).pending.get w = if v = w then s.pending.get v - 1 else s.pending.get w := by
  show (s.release v).pending[w] = if v = w then s.pending[v] - 1 else s.pending[w]
  simp only [release, Fin.getElem_fin, Vector.getElem_set, Fin.val_inj]

theorem mem_ready_release {s : Placement n} :
    w ∈ (s.release v).ready ↔ (w = v ∧ s.pending.get v - 1 = 0) ∨ w ∈ s.ready := by
  unfold release
  dsimp only
  split
  · next hzero =>
    rw [mem_insertReady]
    exact or_congr_left (iff_self_and.2 fun _ => hzero)
  · next hsome => exact (or_iff_right fun h => hsome h.2).symm

/-- **Releasing a successor keeps the invariant.** -/
theorem Sound.release (h : Sound arcs (v :: left) s) : Sound arcs left (s.release v) := by
  have hpos := h.pending_pos
  -- what is placed waits for nothing, and what is ready neither
  have hplaced : v ∉ s.placed := fun hv => absurd (h.settled v hv) (Nat.ne_of_gt hpos)
  have hready : v ∉ s.ready := fun hv => absurd ((h.mem_ready v).1 hv).2 (Nat.ne_of_gt hpos)
  constructor
  · intro w
    have hcount := h.pending_eq w
    rw [List.count_cons] at hcount
    rw [pending_release]
    show _ = arcs.waiting s.placed w + left.count w
    by_cases hvw : v = w
    · subst hvw
      rw [if_pos rfl, hcount]
      simp
    · rw [if_neg hvw, hcount]
      simp [hvw]
  · intro w hw
    have hne : v ≠ w := fun heq => hplaced (heq ▸ hw)
    rw [pending_release, if_neg hne]
    exact h.settled w hw
  · intro w
    rw [mem_ready_release, pending_release, h.mem_ready]
    show _ ↔ w ∉ s.placed ∧ _
    by_cases hvw : v = w
    · subst hvw
      rw [if_pos rfl]
      constructor
      · rintro (⟨-, hzero⟩ | ⟨-, hzero⟩)
        · exact ⟨hplaced, hzero⟩
        · exact absurd hzero (Nat.ne_of_gt hpos)
      · exact fun h => Or.inl ⟨rfl, h.2⟩
    · rw [if_neg hvw]
      exact or_iff_right fun h => hvw h.1.symm
  · simp only [Placement.release]
    split
    · exact pairwise_insertReady h.sorted hready
    · exact h.sorted
  · exact h.greedy

/-- Releasing what a placed vertex leads to, one target after the other, leaves nothing to release. -/
theorem Sound.foldl_release (h : Sound arcs left s) : Sound arcs [] (left.foldl Placement.release s) := by
  induction left generalizing s with
  | nil => exact h
  | cons v left ih => exact ih h.release

/-- Between two placements the ready vertices are the available ones. -/
theorem Sound.mem_ready_iff (h : Sound arcs [] s) : v ∈ s.ready ↔ arcs.Available s.placed v := by
  rw [h.mem_ready, h.pending_eq, List.count_nil, Nat.add_zero, waiting_eq_zero_iff]
  exact Iff.rfl

/-- **Placing the earliest ready vertex keeps the invariant**: its successors are to be released now. -/
theorem Sound.pop {ready : List (Fin n)} (h : Sound arcs [] s) (hready : s.ready = v :: ready) :
    Sound arcs (arcs.successors v) { s with ready, placed := s.placed ++ [v] } := by
  have hv : v ∈ s.ready := by
    rw [hready]
    exact List.mem_cons_self
  obtain ⟨hout, hzero⟩ := (h.mem_ready v).1 hv
  have hsorted := h.sorted
  rw [hready] at hsorted
  obtain ⟨hfirst, hrest⟩ := List.pairwise_cons.1 hsorted
  constructor
  · intro w
    show s.pending.get w = _
    rw [h.pending_eq, List.count_nil, Nat.add_zero]
    exact waiting_concat hout w
  · intro w hw
    rcases List.mem_append.1 hw with hw | hw
    · exact h.settled w hw
    · rw [List.mem_singleton.1 hw]
      exact hzero
  · intro w
    have hw := h.mem_ready w
    rw [hready, List.mem_cons] at hw
    show w ∈ ready ↔ w ∉ s.placed ++ [v] ∧ s.pending.get w = 0
    rw [List.mem_append, List.mem_singleton, not_or]
    constructor
    · intro hmem
      obtain ⟨hplaced, hpending⟩ := hw.1 (Or.inr hmem)
      exact ⟨⟨hplaced, (hfirst w hmem).ne'⟩, hpending⟩
    · rintro ⟨⟨hplaced, hne⟩, hpending⟩
      exact (hw.2 ⟨hplaced, hpending⟩).resolve_left hne
  · exact hrest
  · refine h.greedy.concat (h.mem_ready_iff.1 hv) fun w hw => ?_
    have hmem := h.mem_ready_iff.2 hw
    rw [hready] at hmem
    rcases List.mem_cons.1 hmem with rfl | hmem
    · exact le_refl _
    · exact (hfirst w hmem).le

/-- Releasing places nothing. -/
theorem placed_foldl_release (left : List (Fin n)) (s : Placement n) :
    (left.foldl Placement.release s).placed = s.placed := by
  induction left generalizing s with
  | nil => rfl
  | cons v left ih => exact ih (s.release v)

/-- **One placement keeps the invariant** and places one more vertex. -/
theorem Sound.step (h : Sound arcs [] s) (hstep : s.step? arcs = some t) :
    Sound arcs [] t ∧ t.placed.length = s.placed.length + 1 := by
  unfold step? at hstep
  split at hstep
  · exact absurd hstep (by simp)
  · next v ready hready =>
    obtain rfl := Option.some.inj hstep
    refine ⟨(h.pop hready).foldl_release, ?_⟩
    rw [placed_foldl_release, List.length_append, List.length_singleton]

/-- **A whole run keeps the invariant and leaves nothing ready.** -/
theorem Sound.run {fuel : Nat} (h : Sound arcs [] s) (hfuel : n ≤ fuel + s.placed.length) :
    Sound arcs [] (s.run arcs fuel) ∧ (s.run arcs fuel).ready = [] := by
  induction fuel generalizing s with
  | zero =>
    refine ⟨h, List.eq_nil_iff_forall_not_mem.2 fun v hv => ?_⟩
    -- as many vertices are placed as there are
    have hfull : (v :: s.placed).Nodup :=
      List.nodup_cons.2 ⟨((h.mem_ready v).1 hv).1, h.greedy.isForward.nodup⟩
    have hcard := hfull.length_le_card
    rw [Fintype.card_fin, List.length_cons] at hcard
    omega
  | succ fuel ih =>
    unfold Placement.run
    split
    · next hnone =>
      refine ⟨h, ?_⟩
      unfold step? at hnone
      split at hnone
      · next hempty => exact hempty
      · exact absurd hnone (by simp)
    · next t hstep =>
      obtain ⟨hsound, hlength⟩ := h.step hstep
      exact ih hsound (by omega)

end Placement

namespace Arcs

variable {u v : Fin n}

/-! ## What is placed, and what is not -/

/-- The loop ends in a sound state in which no vertex is ready. -/
theorem sound_placementOrder (arcs : Arcs n) :
    ∃ s : Placement n, Placement.Sound arcs [] s ∧ s.ready = [] ∧ s.placed = arcs.placementOrder := by
  have hfuel : n ≤ n + (Placement.initial arcs).placed.length := Nat.le_add_right _ _
  obtain ⟨hsound, hready⟩ := (Placement.sound_initial arcs).run hfuel
  exact ⟨_, hsound, hready, rfl⟩

/-- **The placement order is greedy.** -/
theorem isGreedy_placementOrder (arcs : Arcs n) : arcs.IsGreedy arcs.placementOrder := by
  obtain ⟨s, hsound, -, hplaced⟩ := sound_placementOrder arcs
  rw [← hplaced]
  exact hsound.greedy

/-- A vertex is not placed. -/
def isStuck (arcs : Arcs n) (v : Fin n) : Bool := !arcs.placementOrder.contains v

/-- A vertex is stuck exactly if it was not placed. -/
theorem isStuck_iff : arcs.isStuck v = true ↔ v ∉ arcs.placementOrder := by
  rw [isStuck, Bool.not_eq_true', ← Bool.not_eq_true, List.contains_iff_mem]

/-- **Every stuck vertex has a stuck predecessor.** -/
theorem exists_stuck_predecessor (h : arcs.isStuck v = true) :
    ∃ u, (arcs.predecessors v).find? arcs.isStuck = some u := by
  obtain ⟨s, hsound, hready, hplaced⟩ := sound_placementOrder arcs
  rw [← Option.isSome_iff_exists, List.find?_isSome]
  by_contra hnone
  have havailable : arcs.Available s.placed v := by
    rw [hplaced]
    refine ⟨isStuck_iff.1 h, fun u harc => ?_⟩
    by_contra hu
    exact hnone ⟨u, mem_predecessors.2 harc, isStuck_iff.2 hu⟩
  have hmem := hsound.mem_ready_iff.2 havailable
  rw [hready] at hmem
  exact absurd hmem List.not_mem_nil

/-! ## Walking backwards -/

/-- Walking backwards from a vertex, always to its first stuck predecessor, closes with this arc: it
leads from a vertex that was seen before. -/
inductive Closes (arcs : Arcs n) : List (Fin n) → Fin n → Fin n × Fin n → Prop
  | close {seen : List (Fin n)} {u v : Fin n} :
      (arcs.predecessors v).find? arcs.isStuck = some u → u ∈ seen → Closes arcs seen v (u, v)
  | back {seen : List (Fin n)} {u v : Fin n} {arc : Fin n × Fin n} :
      (arcs.predecessors v).find? arcs.isStuck = some u → u ∉ seen →
        Closes arcs (u :: seen) u arc → Closes arcs seen v arc

/-- **From a stuck vertex the walk closes** before it has seen more vertices than there are. -/
theorem closes_closingArc {fuel : Nat} {seen : List (Fin n)} (hstuck : arcs.isStuck v = true)
    (hnodup : seen.Nodup) (hfuel : n < fuel + seen.length) :
    arcs.Closes seen v (arcs.closingArc arcs.isStuck fuel seen v) := by
  induction fuel generalizing seen v with
  | zero =>
    have hcard := hnodup.length_le_card
    rw [Fintype.card_fin] at hcard
    omega
  | succ fuel ih =>
    obtain ⟨u, hu⟩ := exists_stuck_predecessor hstuck
    rw [closingArc, hu]
    by_cases hseen : u ∈ seen
    · simp only [if_pos hseen]
      exact .close hu hseen
    · simp only [if_neg hseen]
      refine .back hu hseen (ih (List.find?_some hu) (List.nodup_cons.2 ⟨hseen, hnodup⟩) ?_)
      rw [List.length_cons]
      omega

/-- **The closing arc lies on a cycle**, since the walk only sees what its last vertex leads to. -/
theorem Closes.mem_arcs {seen : List (Fin n)} {arc : Fin n × Fin n} (h : arcs.Closes seen v arc)
    (hseen : ∀ w ∈ seen, w = v ∨ Relation.TransGen (fun a b => (a, b) ∈ arcs) v w) :
    arc ∈ arcs ∧ Relation.TransGen (fun a b => (a, b) ∈ arcs) arc.2 arc.1 := by
  induction h with
  | @close seen u v hu hmem =>
    have harc : (u, v) ∈ arcs := mem_predecessors.1 (List.mem_of_find?_eq_some hu)
    refine ⟨harc, ?_⟩
    rcases hseen u hmem with rfl | hleads
    · exact .single harc
    · exact hleads
  | @back seen u v arc hu _ _ ih =>
    have harc : (u, v) ∈ arcs := mem_predecessors.1 (List.mem_of_find?_eq_some hu)
    refine ih fun w hw => ?_
    rcases List.mem_cons.1 hw with rfl | hw
    · exact Or.inl rfl
    · rcases hseen w hw with rfl | hleads
      · exact Or.inr (.single harc)
      · exact Or.inr (.head harc hleads)

end Arcs

end Flowchart
