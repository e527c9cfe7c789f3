import Flowchart.Keyed

/-!
# Dictionaries of strings

Attributes of a node and metadata of a diagram: pairs of strings with distinct keys, in insertion
order. The order is part of the value, because outputs follow it; `Same` compares two dictionaries
as maps and ignores it.
-/

namespace Flowchart

/-- An insertion-ordered map from strings to strings. -/
structure Dictionary where
  entries : List (String × String)
  nodup : (entries.map Prod.fst).Nodup := by simp
  deriving DecidableEq, Repr

namespace Dictionary

/-- The dictionary without entries. -/
def empty : Dictionary := { entries := [] }

instance : Inhabited Dictionary := ⟨empty⟩

/-- The value of a key. -/
def get? (d : Dictionary) (key : String) : Option String :=
  (Keyed.find? Prod.fst key d.entries).map Prod.snd

/-- Sets the value of a key: in place if the key is there, at the end otherwise. -/
def insert (d : Dictionary) (key value : String) : Dictionary where
  entries := Keyed.put Prod.fst (key, value) d.entries
  nodup := Keyed.nodup_map_key_put _ _ d.nodup

theorem get?_insert (d : Dictionary) (key value k : String) :
    (d.insert key value).get? k = if key = k then some value else d.get? k := by
  by_cases h : key = k <;> simp [get?, insert, Keyed.find?_put, h]

/-- Inserts pairs one after the other. -/
def insertAll (d : Dictionary) (pairs : List (String × String)) : Dictionary :=
  pairs.foldl (fun acc p => acc.insert p.1 p.2) d

/-- The dictionary of a list of pairs; of two values for one key the later wins. -/
def ofList (pairs : List (String × String)) : Dictionary := empty.insertAll pairs

/-- No entries. -/
def isEmpty (d : Dictionary) : Bool := d.entries.isEmpty

/-- Equality as maps: the same entries in any order. -/
def Same (a b : Dictionary) : Prop :=
  a.entries.length = b.entries.length ∧ ∀ e ∈ a.entries, e ∈ b.entries

instance (a b : Dictionary) : Decidable (a.Same b) :=
  inferInstanceAs (Decidable (_ ∧ _))

theorem Same.refl (d : Dictionary) : d.Same d := ⟨rfl, fun _ h => h⟩

end Dictionary

end Flowchart
