import Flowchart.PlantUml.Reading
import Flowchart.Proofs.Source.Steps

/-!
# What the PlantUML reader accepts

Every statement takes steps on the draft, and the nodes it declares have no attributes. So **an
accepted source gives a valid diagram of such nodes**.
-/

namespace Flowchart.PlantUml

/-- Steps of the reader: it records no attributes at all. -/
abbrev Steps : Draft → Draft → Prop := Draft.Steps (fun n => n.attributes = .empty) False

/-- **Every statement takes steps on the draft.** -/
theorem steps_readStatement (d : Draft) (s : Statement) : Steps d (readStatement d s) := by
  unfold readStatement
  dsimp only
  have harrow : ∀ found : Diagnostic, ∀ elementProblem : Option Diagnostic, ∀ unsupportedWord : Bool,
      Steps d (if unsupportedWord then d.report (unsupported s (Text.firstWord s.text))
        else d.report (elementProblem.getD found)) := by
    intro found elementProblem unsupportedWord
    split
    · exact .single (.report d _)
    · exact .single (.report d _)
  split
  · exact .single (.title d _)
  · split
    · exact .single (.direction d _)
    · split
      · exact .refl
      · split
        · exact .single (.report d _)
        · split
          · split
            · exact .single (.declare d _ _ rfl)
            -- a line that declares nothing may still be an arrow
            · split
              · exact .single (.connect d _ _ _)
              · exact harrow _ _ _
          · split
            · exact .single (.connect d _ _ _)
            · exact harrow _ _ _

/-- The statements up to the last line, and complaints about the end. -/
theorem steps_readStatements (sourceEnd : Nat) (d : Draft) (statements : List Statement) :
    Steps d (readStatements sourceEnd d statements) := by
  induction statements generalizing d with
  | nil => exact .single (.report d _)
  | cons s rest ih =>
    unfold readStatements
    split
    · split
      · exact .refl
      · exact .single (.report d _)
    · exact (steps_readStatement d s).trans (ih _)

theorem steps_draft {source : List Char} {d : Draft} (h : draft source = .ok d) : Steps {} d := by
  unfold draft at h
  obtain ⟨visible, -, h⟩ := bind_eq_ok_iff.1 h
  obtain ⟨found, -, h⟩ := bind_eq_ok_iff.1 h
  cases found with
  | nil => exact absurd h (by simp)
  | cons first rest =>
    dsimp only at h
    split at h
    · obtain rfl := Except.ok.inj h
      exact steps_readStatements _ {} rest
    · exact absurd h (by simp)

/-- **An accepted PlantUML source gives a valid diagram** of nodes that have ids and no
attributes. -/
theorem read_accepted {source : String} {e : Diagram} (h : read source = .ok e) :
    e.validate = .ok () ∧ ∀ n ∈ e.nodes, n.id ≠ "" ∧ n.attributes = .empty := by
  unfold read at h
  split at h
  · next d hd => exact (steps_draft hd).resolve h
  · exact absurd h (by simp)

end Flowchart.PlantUml
