/-!
# Lists told apart by a key

Nodes are told apart by their id, attributes by their name. Both are kept in a list in the order in
which they were first inserted. `put` replaces the element with the same key in its place and
otherwise appends, so **it keeps the keys distinct**.
-/

namespace Flowchart.Keyed

variable {α κ : Type} [DecidableEq κ] (key : α → κ)

/-- Replaces the first element with the key of `a`, or appends `a`. -/
def put (a : α) : List α → List α
  | [] => [a]
  | b :: rest => if key b = key a then a :: rest else b :: put a rest

/-- The first element with this key. -/
def find? (k : κ) (items : List α) : Option α := items.find? fun a => key a = k

/-- Some element has this key. -/
def contains (k : κ) (items : List α) : Bool := items.any fun a => key a = k

theorem contains_iff {k : κ} {items : List α} :
    contains key k items = true ↔ k ∈ items.map key := by
  simp [contains]

/-- `put` changes the list of keys only by appending a new one. -/
theorem map_key_put (a : α) (items : List α) :
    (put key a items).map key =
      if key a ∈ items.map key then items.map key else items.map key ++ [key a] := by
  induction items with
  | nil => simp [put]
  | cons b rest ih =>
    by_cases h : key b = key a
    · simp [put, h]
    · simp only [put, h, if_false, List.map_cons, ih, List.mem_cons, Ne.symm h, false_or]
      split <;> simp

theorem nodup_map_key_put (a : α) {items : List α} (h : (items.map key).Nodup) :
    ((put key a items).map key).Nodup := by
  rw [map_key_put]
  split
  · exact h
  · next hnew => simp [List.nodup_append, h]; grind

/-- `put` brings in nothing else. -/
theorem mem_put {a b : α} {items : List α} (h : a ∈ put key b items) : a ∈ items ∨ a = b := by
  induction items with
  | nil => exact Or.inr (List.mem_singleton.1 h)
  | cons c rest ih =>
    rw [put] at h
    split at h
    · rcases List.mem_cons.1 h with hb | hrest
      · exact Or.inr hb
      · exact Or.inl (List.mem_cons_of_mem c hrest)
    · rcases List.mem_cons.1 h with rfl | hrest
      · exact Or.inl List.mem_cons_self
      · exact (ih hrest).imp_left (List.mem_cons_of_mem c)

/-- After `put` the key of `a` finds `a`, and every other key what it found before. -/
theorem find?_put (a : α) (k : κ) (items : List α) :
    find? key k (put key a items) = if key a = k then some a else find? key k items := by
  induction items with
  | nil => by_cases h : key a = k <;> simp [find?, put, h]
  | cons b rest ih =>
    by_cases hb : key b = key a
    · by_cases h : key a = k <;> simp [find?, put, hb, h]
    · by_cases h : key b = k
      · have hne : key a ≠ k := fun ha => hb (h.trans ha.symm)
        rw [put, if_neg hb, if_neg hne]
        simp [find?, h]
      · simpa [find?, put, hb, h] using ih

/-- Where keys are distinct, the key of a member finds that member. -/
theorem find?_eq_some_of_mem {a : α} {items : List α} (h : (items.map key).Nodup)
    (ha : a ∈ items) : find? key (key a) items = some a := by
  induction items with
  | nil => simp at ha
  | cons b rest ih =>
    rw [List.map_cons, List.nodup_cons] at h
    rcases List.mem_cons.1 ha with rfl | hmem
    · simp [find?]
    · have hne : key b ≠ key a := fun hkey => h.1 (hkey ▸ List.mem_map_of_mem hmem)
      simpa [find?, hne] using ih h.2 hmem

/-- Inserts a list of elements one after the other. -/
def putAll (items : List α) (new : List α) : List α := new.foldl (fun acc a => put key a acc) items

end Flowchart.Keyed
