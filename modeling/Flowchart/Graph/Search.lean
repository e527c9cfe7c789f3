/-!
# Searching a graph given by its successors

A graph is given by the function `next` that lists the direct successors of a vertex. Two searches
run on it:

* `explore` walks breadth first and lists the vertices it meets, each once, in discovery order;
* `simplePaths` lists the paths to a goal on which no vertex repeats, depth first.

Both take as fuel a bound on the number of steps, and their callers pass the number of vertices.
The relation `Walk` says, without any algorithm, where a graph leads.
-/

namespace Flowchart.Search

variable {α : Type} [DecidableEq α]

/-! ## Walks -/

/-- A walk along one or more steps of `next`, with its number of steps. -/
inductive Walk (next : α → List α) : α → α → Nat → Prop
  | one {u v : α} : v ∈ next u → Walk next u v 1
  | cons {u v w : α} {n : Nat} : v ∈ next u → Walk next v w n → Walk next u w (n + 1)

/-! ## Breadth first -/

/-- The first occurrences in `found` of what is not in `seen`. -/
def fresh (seen : List α) : List α → List α
  | [] => []
  | v :: found => if v ∈ seen then fresh seen found else v :: fresh (v :: seen) found

theorem mem_fresh {seen found : List α} {v : α} :
    v ∈ fresh seen found ↔ v ∈ found ∧ v ∉ seen := by
  induction found generalizing seen with
  | nil => simp [fresh]
  | cons w found ih =>
    rw [fresh]
    split
    · grind
    · grind

theorem nodup_fresh (seen found : List α) : (fresh seen found).Nodup := by
  induction found generalizing seen with
  | nil => simp [fresh]
  | cons w found ih =>
    rw [fresh]
    split
    · exact ih seen
    · exact List.nodup_cons.2 ⟨fun h => by simp [mem_fresh] at h, ih _⟩

/-- Breadth-first search: takes the first vertex of the queue and appends its successors that were
not seen yet to both the queue and the vertices seen. -/
def explore (next : α → List α) : (fuel : Nat) → (queue seen : List α) → List α
  | 0, _, seen => seen
  | _, [], seen => seen
  | fuel + 1, v :: queue, seen =>
    let new := fresh seen (next v)
    explore next fuel (queue ++ new) (seen ++ new)

/-! ## Depth first -/

/-- The paths from `v` to `goal` that repeat no vertex of `visited` and no vertex of their own, the
goal apart. A path lists its vertices from `v` to `goal`; paths come in the order of `next`. -/
def simplePaths (next : α → List α) (goal : α) :
    (fuel : Nat) → (visited : List α) → (v : α) → List (List α)
  | 0, _, _ => []
  | fuel + 1, visited, v => (next v).flatMap fun w =>
    if w = goal then [[v, w]]
    else if w ∈ visited then []
    else (simplePaths next goal fuel (w :: visited) w).map (v :: ·)

end Flowchart.Search
