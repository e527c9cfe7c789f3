import Flowchart.Proofs.Diagram
import Mathlib.Data.List.Induction
import Mathlib.Data.List.Nodup
import Mathlib.Data.List.Pairwise

/-!
# The first and the last of each key

Where members of a list share a key, either the last of them counts (`lastOfEach`) or the first one
(`firstOfEach`), and the others repeat it (`repeats`). A list that grows at its front keeps what was
last, and one that grows at its end keeps what was first. Inserting one member after the other, as a
dictionary does, is both: **a key stands where it came first and finds what came last**.
-/

namespace Flowchart

namespace Keyed

variable {α κ : Type} [DecidableEq κ] (key : α → κ)

/-! ## The last of each -/

/-- The last member with each key, in order. -/
def lastOfEach (items : List α) : List α := items.pwFilter fun a b => key a ≠ key b

/-- A member stays exactly if its key does not occur again. -/
theorem lastOfEach_cons (a : α) (rest : List α) :
    lastOfEach key (a :: rest) =
      if ∃ b ∈ rest, key b = key a then lastOfEach key rest else a :: lastOfEach key rest := by
  have hlater : (∀ b ∈ lastOfEach key rest, key a ≠ key b) ↔ ¬ ∃ b ∈ rest, key b = key a := by
    have htrans : ∀ {x y z : α}, key x ≠ key z → key x ≠ key y ∨ key y ≠ key z := by
      intro x y z hxz
      by_contra hnone
      rw [not_or, not_not, not_not] at hnone
      exact hxz (hnone.1.trans hnone.2)
    rw [lastOfEach, List.forall_mem_pwFilter (R := fun a b => key a ≠ key b) htrans]
    simp only [not_exists, not_and, ne_eq, eq_comm]
  split
  · next hagain => exact List.pwFilter_cons_of_neg fun h => hlater.1 h hagain
  · next hlast => exact List.pwFilter_cons_of_pos (hlater.2 hlast)

/-- For each key, the last member with it stays and no other. -/
theorem filter_lastOfEach (k : κ) (items : List α) :
    (lastOfEach key items).filter (fun a => key a = k) =
      (items.filter fun a => key a = k).getLast?.toList := by
  induction items with
  | nil => rfl
  | cons a rest ih =>
    rw [lastOfEach_cons]
    by_cases hkey : key a = k
    · rw [List.filter_cons_of_pos (by simpa using hkey)]
      split
      · next hagain =>
        obtain ⟨b, hb, hba⟩ := hagain
        have hsome : rest.filter (fun b => key b = k) ≠ [] :=
          List.ne_nil_of_mem (List.mem_filter.2 ⟨hb, by simpa using hba.trans hkey⟩)
        rw [ih, List.getLast?_cons_of_ne_nil hsome]
      · next hlast =>
        have hnone : rest.filter (fun b => key b = k) = [] := by
          rw [List.filter_eq_nil_iff]
          intro b hb hbk
          exact hlast ⟨b, hb, (of_decide_eq_true hbk).trans hkey.symm⟩
        rw [List.filter_cons_of_pos (by simpa using hkey), ih, hnone]
        rfl
    · rw [List.filter_cons_of_neg (by simpa using hkey)]
      split
      · exact ih
      · rw [List.filter_cons_of_neg (by simpa using hkey), ih]

/-! ## The first of each -/

/-- The first member with each key, in order. -/
def firstOfEach (items : List α) : List α := (lastOfEach key items.reverse).reverse

/-- A member stays exactly if its key did not occur before. -/
theorem firstOfEach_concat (items : List α) (a : α) :
    firstOfEach key (items ++ [a]) =
      if key a ∈ items.map key then firstOfEach key items else firstOfEach key items ++ [a] := by
  have hbefore : (∃ b ∈ items.reverse, key b = key a) ↔ key a ∈ items.map key := by
    simp only [List.mem_reverse, List.mem_map]
  rw [firstOfEach, List.reverse_append, List.reverse_singleton, List.singleton_append,
    lastOfEach_cons]
  simp only [hbefore]
  split
  · rfl
  · rw [List.reverse_cons, firstOfEach]

/-- The first member with a key is still found. -/
theorem find?_firstOfEach (k : κ) (items : List α) :
    find? key k (firstOfEach key items) = find? key k items := by
  induction items using List.reverseRecOn with
  | nil => rfl
  | append_singleton items a ih =>
    rw [firstOfEach_concat]
    split
    · next hbefore =>
      rw [ih, find?, find?, List.find?_append]
      by_cases hkey : key a = k
      · have hsome : find? key k items ≠ none := by
          rw [Ne, find?_eq_none_iff, not_not, ← hkey]
          exact hbefore
        obtain ⟨b, hb⟩ := Option.ne_none_iff_exists'.1 hsome
        rw [show List.find? _ items = some b from hb, Option.some_or]
      · rw [List.find?_cons_of_neg (by simpa using hkey), List.find?_nil, Option.or_none]
    · rw [find?, List.find?_append, find?, List.find?_append]
      exact congrArg (fun found => Option.or found _) ih

theorem mem_map_firstOfEach {k : κ} {items : List α} :
    k ∈ (firstOfEach key items).map key ↔ k ∈ items.map key := by
  rw [← not_iff_not, ← find?_eq_none_iff, ← find?_eq_none_iff, find?_firstOfEach]

theorem mem_firstOfEach_id {k : κ} {items : List κ} : k ∈ firstOfEach id items ↔ k ∈ items := by
  have hmem : k ∈ (firstOfEach id items).map id ↔ k ∈ items.map id := mem_map_firstOfEach id
  rwa [List.map_id, List.map_id] at hmem

/-- Where keys are distinct, every member is the first with its key. -/
theorem firstOfEach_eq_self {items : List α} (h : (items.map key).Nodup) :
    firstOfEach key items = items := by
  induction items using List.reverseRecOn with
  | nil => rfl
  | append_singleton items a ih =>
    rw [List.map_append, List.nodup_append] at h
    have hnew : key a ∉ items.map key := fun hmem =>
      h.2.2 (key a) hmem (key a) (List.mem_singleton_self _) rfl
    rw [firstOfEach_concat, if_neg hnew, ih h.1]

/-- The first member stays, and nothing else with its key. -/
theorem firstOfEach_cons (a : α) (rest : List α) :
    firstOfEach key (a :: rest) = a :: (firstOfEach key rest).filter fun b => key b ≠ key a := by
  induction rest using List.reverseRecOn with
  | nil => rfl
  | append_singleton rest b ih =>
    have hagain : key b ∈ (a :: rest).map key ↔ key b = key a ∨ key b ∈ rest.map key := List.mem_cons
    rw [← List.cons_append, firstOfEach_concat, firstOfEach_concat, ih]
    simp only [hagain]
    by_cases hkey : key b = key a
    · have hnone : [b].filter (fun c => key c ≠ key a) = [] := by simp [hkey]
      rw [if_pos (Or.inl hkey)]
      split
      · rfl
      · rw [List.filter_append, hnone, List.append_nil]
    · have hall : [b].filter (fun c => key c ≠ key a) = [b] := by simp [hkey]
      simp only [hkey, false_or]
      split
      · rfl
      · rw [List.filter_append, hall, List.cons_append]

/-- For each key, the first member with it stays and no other. -/
theorem filter_firstOfEach (k : κ) (items : List α) :
    (firstOfEach key items).filter (fun a => key a = k) =
      (items.filter fun a => key a = k).head?.toList := by
  rw [firstOfEach, List.filter_reverse, filter_lastOfEach, List.filter_reverse,
    List.getLast?_reverse]
  cases (items.filter fun a => key a = k).head? <;> rfl

/-- No two members that stay have the same key. -/
theorem nodup_map_firstOfEach (items : List α) : ((firstOfEach key items).map key).Nodup := by
  rw [firstOfEach, List.map_reverse, List.nodup_reverse, List.Nodup, List.pairwise_map]
  exact List.pairwise_pwFilter _

/-- Who goes through the members with the keys seen so far, and keeps those with a new one, keeps the
first of each. -/
theorem eq_filter_firstOfEach {f : List κ → List α → List α} (hnil : ∀ seen, f seen [] = [])
    (hold : ∀ seen a rest, key a ∈ seen → f seen (a :: rest) = f seen rest)
    (hnew : ∀ seen a rest, key a ∉ seen → f seen (a :: rest) = a :: f (key a :: seen) rest)
    (seen : List κ) (items : List α) :
    f seen items = (firstOfEach key items).filter fun a => key a ∉ seen := by
  induction items generalizing seen with
  | nil => rw [hnil]; rfl
  | cons a rest ih =>
    rw [firstOfEach_cons]
    by_cases hseen : key a ∈ seen
    · rw [hold seen a rest hseen, List.filter_cons_of_neg (by simpa using hseen), List.filter_filter,
        ih]
      refine List.filter_congr fun b _ => ?_
      rw [Bool.eq_iff_iff, Bool.and_eq_true, decide_eq_true_iff, decide_eq_true_iff]
      exact ⟨fun h => ⟨h, fun hkey => h (hkey ▸ hseen)⟩, fun h => h.1⟩
    · rw [hnew seen a rest hseen, List.filter_cons_of_pos (by simpa using hseen),
        List.filter_filter, ih]
      refine congrArg (a :: ·) (List.filter_congr fun b _ => ?_)
      rw [Bool.eq_iff_iff, Bool.and_eq_true, decide_eq_true_iff, decide_eq_true_iff,
        decide_eq_true_iff, List.mem_cons, not_or, and_comm]

/-- Who starts without any keys keeps the first of each. -/
theorem eq_firstOfEach {f : List κ → List α → List α} (hnil : ∀ seen, f seen [] = [])
    (hold : ∀ seen a rest, key a ∈ seen → f seen (a :: rest) = f seen rest)
    (hnew : ∀ seen a rest, key a ∉ seen → f seen (a :: rest) = a :: f (key a :: seen) rest)
    (items : List α) : f [] items = firstOfEach key items := by
  rw [eq_filter_firstOfEach key hnil hold hnew, List.filter_eq_self]
  exact fun a _ => decide_eq_true List.not_mem_nil

/-! ## Inserting one after the other -/

theorem putAll_concat (items new : List α) (a : α) :
    putAll key items (new ++ [a]) = put key a (putAll key items new) := by
  rw [putAll, List.foldl_concat, putAll]

/-- Keys stand in the order in which they came first. -/
theorem map_key_putAll {items : List α} (h : (items.map key).Nodup) (new : List α) :
    (putAll key items new).map key = firstOfEach id ((items ++ new).map key) := by
  induction new using List.reverseRecOn with
  | nil =>
    rw [List.append_nil, firstOfEach_eq_self id (by rw [List.map_id]; exact h)]
    rfl
  | append_singleton new a ih =>
    have hkeys : key a ∈ (putAll key items new).map key ↔
        id (key a) ∈ ((items ++ new).map key).map id := by
      rw [ih, mem_firstOfEach_id, List.map_id, id_eq]
    have hsplit : (items ++ (new ++ [a])).map key = (items ++ new).map key ++ [key a] := by
      rw [← List.append_assoc, List.map_append, List.map_singleton]
    rw [putAll_concat, map_key_put, hsplit, firstOfEach_concat, ← ih]
    simp only [hkeys]

/-- A key finds what came last with it. -/
theorem find?_putAll (k : κ) (items new : List α) :
    find? key k (putAll key items new) =
      (new.filter fun a => key a = k).getLast?.or (find? key k items) := by
  induction new using List.reverseRecOn with
  | nil => rfl
  | append_singleton new a ih =>
    rw [putAll_concat, find?_put, List.filter_append]
    split
    · next hkey => simp [hkey]
    · next hkey => simp [hkey, ih]

/-! ## Members that repeat a key -/

/-- The members whose key occurred before, each with the first one that had it. -/
def repeats (before : List α) : List α → List (α × α)
  | [] => []
  | a :: rest =>
    (find? key (key a) before).toList.map (fun first => (a, first)) ++ repeats (before ++ [a]) rest

theorem repeats_concat (before items : List α) (a : α) :
    repeats key before (items ++ [a]) = repeats key before items ++
      (find? key (key a) (before ++ items)).toList.map fun first => (a, first) := by
  induction items generalizing before with
  | nil => simp [repeats]
  | cons b rest ih => simp [repeats, ih]

/-- No member repeats a key exactly if the keys are distinct. -/
theorem repeats_eq_nil_iff {items : List α} :
    repeats key [] items = [] ↔ (items.map key).Nodup := by
  induction items using List.reverseRecOn with
  | nil => simp [repeats]
  | append_singleton items a ih =>
    have hnew : ((find? key (key a) items).toList.map fun first => (a, first)) = [] ↔
        key a ∉ items.map key := by
      rw [List.map_eq_nil_iff, Option.toList_eq_nil_iff, find?_eq_none_iff]
    rw [repeats_concat, List.nil_append, List.append_eq_nil_iff, ih, hnew, List.map_append,
      List.map_singleton, List.nodup_append_comm, List.singleton_append, List.nodup_cons, and_comm]

end Keyed

/-! ## Dictionaries -/

namespace Dictionary

theorem insertAll_append (d : Dictionary) (pairs later : List (String × String)) :
    d.insertAll (pairs ++ later) = (d.insertAll pairs).insertAll later := by
  rw [insertAll, List.foldl_append, insertAll, insertAll]

/-- Keys stand in the order in which they came first. -/
theorem map_fst_insertAll (d : Dictionary) (pairs : List (String × String)) :
    (d.insertAll pairs).entries.map Prod.fst =
      Keyed.firstOfEach id ((d.entries ++ pairs).map Prod.fst) := by
  rw [entries_insertAll_eq_putAll, Keyed.map_key_putAll Prod.fst d.nodup]

/-- A key has the value that came last. -/
theorem get?_insertAll (d : Dictionary) (pairs : List (String × String)) (key : String) :
    (d.insertAll pairs).get? key =
      ((pairs.filter fun p => p.1 = key).getLast?.map Prod.snd).or (d.get? key) := by
  rw [get?, entries_insertAll_eq_putAll, Keyed.find?_putAll, Option.map_or, get?]

end Dictionary

end Flowchart
