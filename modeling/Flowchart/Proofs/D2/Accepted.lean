import Flowchart.D2.Reading
import Flowchart.Proofs.Source.Steps

/-!
# What the D2 reader accepts

Every statement takes steps on the draft, and the nodes it declares have no attributes called `shape`
or `label`, because these entries give the node its type and its label. So **an accepted source gives
a valid diagram of such nodes**.
-/

namespace Flowchart.D2

/-- The entries that are kept as attributes are not called `shape` or `label`. -/
theorem stripped_node (decl : Declaration) : (node decl).stripped = node decl := by
  unfold node
  refine Node.stripped_withAttributes rfl fun p hp => ?_
  obtain ⟨e, he, rfl⟩ := List.mem_map.1 hp
  exact (List.mem_filter.1 he).2

/-- Steps of the reader: it records no attributes beside the nodes. -/
abbrev Steps : Draft → Draft → Prop := Draft.Steps (fun n => n.stripped = n) False

/-- A chain adds edges one after the other, up to the first container path. -/
theorem steps_connectAll (d : Draft) (label : Option String) (type : EdgeType) (previous : Key)
    (links : List (Bool × Key)) : Steps d (connectAll d label type previous links) := by
  induction links generalizing d previous with
  | nil => exact .refl
  | cons link rest ih =>
    obtain ⟨back, next⟩ := link
    unfold connectAll
    split
    · exact .single (.report d _)
    · split
      · exact .single (.report d _)
      · exact .head (.connect d _ _ _) (ih _ next)

theorem steps_addShape (d : Draft) (s : Statement) (decl : Declaration) :
    Steps d (addShape d s decl) := by
  unfold addShape
  dsimp only
  generalize (if decl.first.quoted then "" else decl.first.name.toLower) = name
  split
  · split
    · exact .single (.direction d _)
    · exact .single (.report d _)
  · split
    · exact .single (.title d _)
    · split
      · exact .single (.report d _)
      · split
        · exact .single (.report d _)
        · exact .single (.declare d _ _ (stripped_node decl))

/-- **Every statement takes steps on the draft.** -/
theorem steps_readStatement (d : Draft) (s : Statement) : Steps d (readStatement d s) := by
  unfold readStatement
  split
  · exact .single (.report d _)
  · split
    · exact .single (.report d _)
    · split
      · exact steps_addShape d s _
      · exact steps_connectAll d _ _ _ _

theorem steps_draft {source : List Char} {d : Draft} (h : draft source = .ok d) : Steps {} d := by
  unfold draft at h
  obtain ⟨visible, -, h⟩ := bind_eq_ok_iff.1 h
  obtain ⟨found, -, h⟩ := bind_eq_ok_iff.1 h
  obtain rfl : found.foldl readStatement {} = d := Except.ok.inj h
  exact Draft.steps_foldl (fun d => d) (fun s _ d => steps_readStatement d s) {}

/-- **An accepted D2 source gives a valid diagram** of nodes that have ids and no attributes called
`shape` or `label`. -/
theorem read_accepted {source : String} {e : Diagram} (h : read source = .ok e) :
    e.validate = .ok () ∧ ∀ n ∈ e.nodes, n.id ≠ "" ∧ n.stripped = n := by
  unfold read at h
  split at h
  · next d hd => exact (steps_draft hd).resolve h
  · exact absurd h (by simp)

end Flowchart.D2
