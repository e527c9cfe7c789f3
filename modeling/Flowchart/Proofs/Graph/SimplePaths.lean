import Flowchart.Graph.Search
import Mathlib.Data.List.Chain
import Mathlib.Data.List.Nodup

/-!
# Depth-first search lists every simple path once

A path that `simplePaths` lists goes from `v` along steps of `next` to the goal, and between the two
it repeats no vertex, avoids what was visited and does not touch the goal. **Every such path is
listed**, as long as the fuel exceeds the number of vertices in between, and it is listed once when
no vertex has a successor twice. All of this is by recursion on the fuel, one step of the path for
each unit of it.
-/

namespace Flowchart.Search

variable {α : Type} [DecidableEq α] {next : α → List α} {goal : α}

/-- **The simple paths**, described by the vertices between their ends. -/
theorem mem_simplePaths_iff {fuel : Nat} {visited : List α} {v : α} {path : List α} :
    path ∈ simplePaths next goal fuel visited v ↔
      ∃ between, path = v :: (between ++ [goal]) ∧
        (v :: (between ++ [goal])).IsChain (fun a b => b ∈ next a) ∧
        between.Nodup ∧ (∀ w ∈ between, w ≠ goal ∧ w ∉ visited) ∧ between.length < fuel := by
  induction fuel generalizing visited v path with
  | zero => simp [simplePaths]
  | succ fuel ih =>
    rw [simplePaths, List.mem_flatMap]
    constructor
    · rintro ⟨w, hw, hpath⟩
      split at hpath
      · next hgoal =>
        subst hgoal
        refine ⟨[], List.mem_singleton.1 hpath, ?_, List.nodup_nil, by simp, by simp⟩
        exact List.isChain_pair.2 hw
      · next hgoal =>
        split at hpath
        · exact absurd hpath List.not_mem_nil
        · next hvisited =>
          obtain ⟨tail, htail, rfl⟩ := List.mem_map.1 hpath
          obtain ⟨between, rfl, hchain, hnodup, havoid, hlength⟩ := ih.1 htail
          refine ⟨w :: between, rfl, List.isChain_cons_cons.2 ⟨hw, hchain⟩, ?_, ?_, by simpa⟩
          · refine List.nodup_cons.2 ⟨fun hmem => ?_, hnodup⟩
            exact (havoid w hmem).2 List.mem_cons_self
          · intro x hx
            rcases List.mem_cons.1 hx with rfl | hx
            · exact ⟨hgoal, hvisited⟩
            · exact ⟨(havoid x hx).1, fun h => (havoid x hx).2 (List.mem_cons_of_mem w h)⟩
    · rintro ⟨between, rfl, hchain, hnodup, havoid, hlength⟩
      cases between with
      | nil =>
        refine ⟨goal, List.isChain_pair.1 hchain, ?_⟩
        rw [if_pos rfl]
        exact List.mem_singleton.2 rfl
      | cons w between =>
        obtain ⟨hw, hchain⟩ := List.isChain_cons_cons.1 hchain
        obtain ⟨hfresh, hnodup⟩ := List.nodup_cons.1 hnodup
        obtain ⟨hgoal, hvisited⟩ := havoid w List.mem_cons_self
        refine ⟨w, hw, ?_⟩
        rw [if_neg hgoal, if_neg hvisited]
        refine List.mem_map_of_mem (ih.2 ⟨between, rfl, hchain, hnodup, ?_, ?_⟩)
        · intro x hx
          obtain ⟨hne, hout⟩ := havoid x (List.mem_cons_of_mem w hx)
          refine ⟨hne, ?_⟩
          rw [List.mem_cons, not_or]
          exact ⟨fun h => hfresh (h ▸ hx), hout⟩
        · simpa using hlength

/-- **No path is listed twice** when no vertex has a successor twice. -/
theorem nodup_simplePaths (hnext : ∀ v, (next v).Nodup) (fuel : Nat) (visited : List α) (v : α) :
    (simplePaths next goal fuel visited v).Nodup := by
  induction fuel generalizing visited v with
  | zero => exact List.nodup_nil
  | succ fuel ih =>
    rw [simplePaths, List.nodup_flatMap]
    refine ⟨fun w _ => ?_, ?_⟩
    · split
      · exact List.nodup_singleton _
      · split
        · exact List.nodup_nil
        · exact (ih (w :: visited) w).map fun _ _ h => List.tail_eq_of_cons_eq h
    -- the second vertex tells the pieces apart
    · have hsecond : ∀ w, ∀ path ∈ (if w = goal then [[v, w]]
          else if w ∈ visited then []
          else (simplePaths next goal fuel (w :: visited) w).map (v :: ·)),
          path[1]? = some w := by
        intro w path hpath
        split at hpath
        · rw [List.mem_singleton.1 hpath]
          rfl
        · split at hpath
          · exact absurd hpath List.not_mem_nil
          · obtain ⟨tail, htail, rfl⟩ := List.mem_map.1 hpath
            obtain ⟨between, rfl, -⟩ := mem_simplePaths_iff.1 htail
            rfl
      refine (hnext v).imp fun {a b} hab => ?_
      intro path ha hb
      exact hab (Option.some.inj ((hsecond a path ha).symm.trans (hsecond b path hb)))

end Flowchart.Search
