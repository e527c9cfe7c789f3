import Flowchart.Proofs.Graph.Adjacency

/-!
# The loop of placement, one action at a time

`Placement.run` releases all successors of a vertex in one step and subtracts without asking. Here
the loop is taken apart. A `Moment` stands between two actions: either a count is lowered, **which is
refused where nothing is left to subtract**, or the earliest ready vertex leaves the queue. Beside
the state it records every vertex that entered the queue, also where one enters it twice.

* What one action does is said once (`Moment.Sound.next_cases`), and the invariant of the placement
  carries over: the queue held what has left it and what is still in it, each vertex once.
* So no action of a run is refused, and **the run ends with the order of the placement**.
-/

namespace Flowchart

variable {n : Nat} {arcs : Arcs n}

namespace Placement

/-! ## Moments and actions -/

/-- The loop between two actions: its state, the successors of the vertex that left the queue last
which are still to be released, and the vertices that entered the queue, in that order. -/
structure Moment (n : Nat) where
  state : Placement n
  left : List (Fin n)
  queued : List (Fin n)

/-- What comes next: nothing, a subtraction from zero, or another moment. -/
inductive Action (n : Nat) where
  | done
  | underflow (v : Fin n)
  | goOn (next : Moment n)

namespace Moment

/-- The moment before the first action. -/
def start (arcs : Arcs n) : Moment n := ⟨initial arcs, [], (initial arcs).ready⟩

/-- A vertex enters the queue. -/
def enqueue (m : Moment n) (v : Fin n) : Moment n :=
  { m with
    state := { m.state with ready := insertReady v m.state.ready }
    queued := m.queued ++ [v] }

/-- One action: the next successor is released, or, when all are, the earliest ready vertex leaves
the queue. -/
def next (arcs : Arcs n) (m : Moment n) : Action n :=
  match m.left with
  | v :: left =>
    match m.state.pending.get v with
    | 0 => .underflow v
    | count + 1 =>
      let lowered : Moment n :=
        { m with state := { m.state with pending := m.state.pending.set v count v.isLt }, left }
      .goOn (if count = 0 then lowered.enqueue v else lowered)
  | [] =>
    match m.state.ready with
    | [] => .done
    | v :: ready =>
      .goOn { m with
        state := { m.state with ready, placed := m.state.placed ++ [v] }
        left := arcs.successors v }

end Moment

/-- A run of the loop comes to this moment after this number of actions. -/
inductive Comes (arcs : Arcs n) : Nat → Moment n → Prop
  | start : Comes arcs 0 (.start arcs)
  | next {k : Nat} {m m' : Moment n} :
      Comes arcs k m → m.next arcs = .goOn m' → Comes arcs (k + 1) m'

namespace Moment

variable {s : Placement n} {v : Fin n} {left queued ready : List (Fin n)} {m m' : Moment n}

/-! ## What one action does -/

/-- Inserting a ready vertex adds just this one. -/
theorem perm_insertReady (v : Fin n) (l : List (Fin n)) : (insertReady v l).Perm (v :: l) := by
  induction l with
  | nil => exact .refl _
  | cons w l ih =>
    rw [insertReady]
    split
    · exact .refl _
    · exact (ih.cons w).trans (.swap v w l)

/-- The state is sound, and what entered the queue is what has left it and what is still in it. -/
structure Sound (arcs : Arcs n) (m : Moment n) : Prop where
  state : Placement.Sound arcs m.left m.state
  queued : m.queued.Perm (m.state.placed ++ m.state.ready)

/-- The start is sound: nothing is left to release, and what is ready has no arcs to wait for. -/
theorem sound_start (arcs : Arcs n) : (start arcs).Sound arcs where
  state := sound_initial arcs
  queued := .refl _

/-- **A successor is released**: where its count is positive, it is lowered. -/
theorem next_release (arcs : Arcs n) (left queued : List (Fin n)) (hpos : 0 < s.pending.get v) :
    next arcs ⟨s, v :: left, queued⟩ =
      .goOn ⟨s.release v, left, if s.pending.get v - 1 = 0 then queued ++ [v] else queued⟩ := by
  obtain ⟨count, hcount⟩ : ∃ count, s.pending.get v = count + 1 := ⟨_, (Nat.sub_add_cancel hpos).symm⟩
  have hget : s.pending[v] = count + 1 := hcount
  unfold next
  simp only [hcount, release, hget, Nat.add_sub_cancel]
  by_cases hzero : count = 0
  · simp only [hzero, if_true, enqueue]
  · simp only [hzero, if_false]

/-- **Releasing an arc goes on**, because its target still waits for it. -/
theorem Sound.next_release (h : Sound arcs ⟨s, v :: left, queued⟩) :
    ∃ queued', next arcs ⟨s, v :: left, queued⟩ = .goOn ⟨s.release v, left, queued'⟩ ∧
      Sound arcs ⟨s.release v, left, queued'⟩ := by
  refine ⟨_, Moment.next_release arcs left queued h.state.pending_pos, h.state.release, ?_⟩
  have hperm : queued.Perm (s.placed ++ s.ready) := h.queued
  show List.Perm _ (s.placed ++ (s.release v).ready)
  have hget : s.pending[v] = s.pending.get v := rfl
  simp only [release, hget]
  by_cases hzero : s.pending.get v - 1 = 0
  -- the vertex enters the record and the queue
  · rw [if_pos hzero, if_pos hzero]
    refine (hperm.append_right [v]).trans ?_
    rw [List.append_assoc]
    refine List.Perm.append_left s.placed ?_
    exact List.perm_append_comm.trans (perm_insertReady v s.ready).symm
  · rw [if_neg hzero, if_neg hzero]
    exact hperm

/-- **The earliest ready vertex leaves the queue.** -/
theorem Sound.next_pop (h : Sound arcs ⟨s, [], queued⟩) (hready : s.ready = v :: ready) :
    next arcs ⟨s, [], queued⟩ =
        .goOn ⟨{ s with ready, placed := s.placed ++ [v] }, arcs.successors v, queued⟩ ∧
      Sound arcs ⟨{ s with ready, placed := s.placed ++ [v] }, arcs.successors v, queued⟩ := by
  refine ⟨by simp only [next, hready], h.state.pop hready, ?_⟩
  have hperm : queued.Perm (s.placed ++ s.ready) := h.queued
  show queued.Perm (s.placed ++ [v] ++ ready)
  rwa [List.append_assoc, List.singleton_append, ← hready]

/-- The loop is done when nothing is left and nothing is ready. -/
theorem next_done (arcs : Arcs n) (hready : s.ready = []) : next arcs ⟨s, [], queued⟩ = .done := by
  simp only [next, hready]

/-- What changes between two moments: the first successor that is left was released, or a vertex left
the queue, and now its successors are to be released. -/
def Precedes (arcs : Arcs n) (m m' : Moment n) : Prop :=
  (∃ v, m.left = v :: m'.left ∧ m'.state.placed = m.state.placed) ∨
    ∃ v, m.left = [] ∧ m'.left = arcs.successors v ∧ m'.state.placed = m.state.placed ++ [v]

/-- **An action is never refused.** The loop is done, or it goes on and keeps the invariant. -/
theorem Sound.next_cases (h : m.Sound arcs) :
    m.next arcs = .done ∨ ∃ m', m.next arcs = .goOn m' ∧ m'.Sound arcs ∧ m.Precedes arcs m' := by
  obtain ⟨s, left, queued⟩ := m
  cases left with
  | cons v left =>
    obtain ⟨queued', hnext, hsound⟩ := h.next_release
    exact Or.inr ⟨_, hnext, hsound, Or.inl ⟨v, rfl, rfl⟩⟩
  | nil =>
    cases hready : s.ready with
    | nil => exact Or.inl (next_done arcs hready)
    | cons v ready =>
      obtain ⟨hnext, hsound⟩ := h.next_pop hready
      exact Or.inr ⟨_, hnext, hsound, Or.inr ⟨v, rfl, rfl, rfl⟩⟩

theorem Sound.next (h : m.Sound arcs) (hnext : m.next arcs = .goOn m') :
    m'.Sound arcs ∧ m.Precedes arcs m' := by
  rcases h.next_cases with hdone | ⟨m'', hgoes, hcases⟩
  · exact absurd (hdone.symm.trans hnext) (by simp)
  · obtain rfl := Action.goOn.inj (hgoes.symm.trans hnext)
    exact hcases

/-- So no count is ever taken below zero. -/
theorem Sound.next_ne_underflow (h : m.Sound arcs) (v : Fin n) : m.next arcs ≠ .underflow v := by
  intro hunderflow
  rcases h.next_cases with hdone | ⟨m', hgoes, -⟩
  · exact absurd (hdone.symm.trans hunderflow) (by simp)
  · exact absurd (hgoes.symm.trans hunderflow) (by simp)

/-- No vertex enters the queue twice. -/
theorem Sound.nodup_queued (h : m.Sound arcs) : m.queued.Nodup := by
  rw [h.queued.nodup_iff, List.nodup_append]
  refine ⟨h.state.greedy.isForward.nodup, h.state.sorted.imp fun hlt => hlt.ne, ?_⟩
  intro v hplaced w hready heq
  subst heq
  exact ((h.state.mem_ready v).1 hready).1 hplaced

/-- The count of a vertex that is still to be released is positive. -/
theorem Sound.pending_pos (h : m.Sound arcs) (hv : v ∈ m.left) : 0 < m.state.pending.get v := by
  have hcount := List.count_pos_iff.2 hv
  rw [h.state.pending_eq]
  omega

end Moment

/-! ## Runs -/

variable {s : Placement n} {v : Fin n} {left queued : List (Fin n)} {m : Moment n} {k : Nat}

/-- Every moment that comes is sound. -/
theorem Comes.sound (h : Comes arcs k m) : m.Sound arcs := by
  induction h with
  | start => exact Moment.sound_start arcs
  | next _ hnext ih => exact (ih.next hnext).1

/-- **Every action takes a vertex out of the queue or releases a successor of one that was taken.** -/
theorem Comes.add_length (h : Comes arcs k m) :
    k + m.left.length = m.state.placed.length +
      (m.state.placed.map fun u => (arcs.successors u).length).sum := by
  induction h with
  | start => rfl
  | @next k m m' hcomes hnext ih =>
    rcases (hcomes.sound.next hnext).2 with ⟨v, hleft, hplaced⟩ | ⟨v, hleft, hleft', hplaced⟩
    · rw [hplaced, ← ih, hleft, List.length_cons]
      omega
    · rw [hplaced, hleft', List.length_append, List.map_append, List.sum_append]
      rw [hleft, List.length_nil] at ih
      simp only [List.length_singleton, List.map_singleton, List.sum_singleton]
      omega

/-- All successors are released one after the other. -/
theorem Comes.foldl_release (h : Comes arcs k ⟨s, left, queued⟩) :
    ∃ k' queued', Comes arcs k' ⟨left.foldl release s, [], queued'⟩ := by
  induction left generalizing k s queued with
  | nil => exact ⟨k, queued, h⟩
  | cons v left ih =>
    obtain ⟨queued', hnext, -⟩ := h.sound.next_release
    exact ih (h.next hnext)

/-- **The single actions make up the steps of the placement.** -/
theorem Comes.run (fuel : Nat) (h : Comes arcs k ⟨s, [], queued⟩) :
    ∃ k' queued', Comes arcs k' ⟨s.run arcs fuel, [], queued'⟩ := by
  induction fuel generalizing k s queued with
  | zero => exact ⟨k, queued, h⟩
  | succ fuel ih =>
    unfold Placement.run
    cases hready : s.ready with
    | nil =>
      have hstep : s.step? arcs = none := by
        simp only [step?, hready]
      rw [hstep]
      exact ⟨k, queued, h⟩
    | cons v ready =>
      have hstep : s.step? arcs = some ((arcs.successors v).foldl release
          { s with ready, placed := s.placed ++ [v] }) := by
        simp only [step?, hready]
      rw [hstep]
      obtain ⟨k', queued', hcomes⟩ := (h.next (h.sound.next_pop hready).1).foldl_release
      exact ih hcomes

/-- Between two exits from the queue, the loop has the states of the placement. -/
theorem exists_comes_run (arcs : Arcs n) (fuel : Nat) :
    ∃ k queued, Comes arcs k ⟨(initial arcs).run arcs fuel, [], queued⟩ := by
  have hstart : Comes arcs 0 ⟨initial arcs, [], (initial arcs).ready⟩ := .start
  exact hstart.run fuel

/-- **The run ends**, with the vertices in the order of the placement. -/
theorem exists_comes_done (arcs : Arcs n) :
    ∃ k m, Comes arcs k m ∧ m.next arcs = .done ∧ m.state.placed = arcs.placementOrder := by
  have hfuel : n ≤ n + (initial arcs).placed.length := Nat.le_add_right _ _
  obtain ⟨-, hready⟩ := (sound_initial arcs).run hfuel
  obtain ⟨k, queued, hcomes⟩ := exists_comes_run arcs n
  exact ⟨k, _, hcomes, Moment.next_done arcs hready, rfl⟩

end Placement

/-! ## How long a run is -/

namespace Arcs

/-- Every arc leaves one vertex. -/
theorem sum_length_successors (arcs : Arcs n) :
    ((List.finRange n).map fun u => (arcs.successors u).length).sum = arcs.length := by
  have hcount : ∀ u, (arcs.successors u).length = arcs.countP fun a => a.1 == u := by
    intro u
    rw [successors, List.length_filterMap_eq_countP]
    refine List.countP_congr fun a _ => ?_
    by_cases h : a.1 = u <;> simp [h]
  simp only [hcount]
  exact sum_countP_eq_length Prod.fst (List.nodup_finRange n) fun a _ => List.mem_finRange a.1

/-- Different vertices have no more successors than there are arcs. -/
theorem sum_length_successors_le (arcs : Arcs n) {vs : List (Fin n)} (h : vs.Nodup) :
    (vs.map fun u => (arcs.successors u).length).sum ≤ arcs.length := by
  have hsub : vs.Subperm (List.finRange n) := h.subperm fun v _ => List.mem_finRange v
  rw [← sum_length_successors arcs]
  obtain ⟨ws, hperm, hsublist⟩ := hsub
  rw [← (hperm.map fun u => (arcs.successors u).length).sum_eq]
  exact (hsublist.map _).sum_le_sum fun _ _ => Nat.zero_le _

end Arcs

/-- **A run takes at most as many steps as there are vertices and arcs.** -/
theorem Placement.Comes.le {k : Nat} {m : Placement.Moment n} (h : Placement.Comes arcs k m) :
    k ≤ n + arcs.length := by
  have hnodup := h.sound.state.greedy.isForward.nodup
  have hplaced := hnodup.length_le_card
  rw [Fintype.card_fin] at hplaced
  have hreleased := arcs.sum_length_successors_le hnodup
  have hsum := h.add_length
  omega

/-! ## Counts and edges -/

namespace Diagram

variable {d : Diagram}

/-- **A vertex waits for its edges from nodes that have not left the queue.** -/
theorem waiting_eq (placed : List (Fin d.nodes.length)) (v : Fin d.nodes.length) :
    d.arcs.waiting placed v = (d.edges.filter fun e =>
      (e.target = d.idAt v ∧ e.source ∈ d.ids) ∧ e.source ∉ placed.map d.idAt).length := by
  have hmem : ∀ u, (!placed.contains u) = decide (d.idAt u ∉ placed.map d.idAt) := by
    intro u
    rw [Bool.eq_iff_iff, decide_eq_true_eq, List.mem_map_of_injective idAt_injective]
    simp
  have hids : d.arcs.waiting placed v =
      ((d.arcs.predecessors v).map d.idAt).countP fun id => id ∉ placed.map d.idAt := by
    rw [Arcs.waiting, List.countP_map]
    exact List.countP_congr fun u _ => by rw [hmem]; rfl
  rw [hids, ← farEnds_target_source, farEnds_eq (idAt_mem_ids v) fun _ => connects_iff.trans and_comm,
    List.countP_map, List.countP_filter, ← List.countP_eq_length_filter]
  refine List.countP_congr fun e _ => ?_
  simp only [Function.comp_apply, Bool.and_eq_true, decide_eq_true_eq]
  exact and_comm

/-- **The loop of placement never underflows.** Whatever the diagram, and however far the loop has
come:

* no node entered the queue twice, and none left it twice;
* every count that is still to be lowered is positive, so no subtraction is refused;
* the count of a node is the number of edges into it from nodes that have not left the queue; while
  the successors of a node are gone through, those that are still to be released count too;
* there were no more actions than nodes and edges.

So the loop ends. Between two exits it has the states of `Placement.run`, and at the end its order. -/
theorem placementLoop_isSafe (d : Diagram) :
    (∀ k m, Placement.Comes d.arcs k m →
      (m.queued.Nodup ∧ m.state.placed.Nodup) ∧
        ((∀ v ∈ m.left, 0 < m.state.pending.get v) ∧ ∀ v, m.next d.arcs ≠ .underflow v) ∧
        (∀ v, m.state.pending.get v =
          (d.edges.filter fun e => (e.target = d.idAt v ∧ e.source ∈ d.ids) ∧
            e.source ∉ m.state.placed.map d.idAt).length + m.left.count v) ∧
        k ≤ d.nodes.length + d.edges.length) ∧
      (∀ fuel, ∃ k queued,
        Placement.Comes d.arcs k ⟨(Placement.initial d.arcs).run d.arcs fuel, [], queued⟩) ∧
      ∃ k m, Placement.Comes d.arcs k m ∧ m.next d.arcs = .done ∧
        m.state.placed = d.arcs.placementOrder := by
  refine ⟨fun k m h => ⟨⟨h.sound.nodup_queued, ?_⟩, ⟨?_, ?_⟩, fun v => ?_, ?_⟩,
    Placement.exists_comes_run d.arcs, Placement.exists_comes_done d.arcs⟩
  · exact h.sound.state.greedy.isForward.nodup
  · exact fun v hv => h.sound.pending_pos hv
  · exact h.sound.next_ne_underflow
  · rw [h.sound.state.pending_eq, waiting_eq]
  · have hle := h.le
    have harcs : d.arcs.length ≤ d.edges.length := List.length_filterMap_le d.arc? d.edges
    omega

/-- Parallel edges, a self-loop and an edge to no node. -/
def knotted : Diagram := .of
  [⟨"b", "B", .unspecified, .empty⟩, ⟨"a", "A", .unspecified, .empty⟩,
    ⟨"c", "C", .unspecified, .empty⟩]
  [⟨"a", "b", none, .plain⟩, ⟨"a", "b", none, .plain⟩, ⟨"c", "c", none, .plain⟩,
    ⟨"b", "c", none, .plain⟩, ⟨"a", "ghost", none, .plain⟩]
  .empty (by decide)

/-- Only `a` has left the queue, and one of the two edges from it to `b` is released. -/
def midway : Placement.Moment knotted.nodes.length where
  state := ⟨⟨#[1, 0, 2], rfl⟩, [], [⟨1, by decide⟩]⟩
  left := [⟨0, by decide⟩]
  queued := [⟨1, by decide⟩]

theorem placementLoop_isSafe_midway :
    Placement.Comes knotted.arcs 2 midway ∧
      (midway.queued.Nodup ∧ midway.state.placed.Nodup) ∧
        ((∀ v ∈ midway.left, 0 < midway.state.pending.get v) ∧
          ∀ v, midway.next knotted.arcs ≠ .underflow v) ∧
        (∀ v, midway.state.pending.get v =
          (knotted.edges.filter fun e => (e.target = knotted.idAt v ∧ e.source ∈ knotted.ids) ∧
            e.source ∉ midway.state.placed.map knotted.idAt).length + midway.left.count v) ∧
        2 ≤ knotted.nodes.length + knotted.edges.length := by
  have hcomes : Placement.Comes knotted.arcs 2 midway := .next (.next .start rfl) rfl
  exact ⟨hcomes, (placementLoop_isSafe knotted).1 2 midway hcomes⟩

end Diagram

end Flowchart
