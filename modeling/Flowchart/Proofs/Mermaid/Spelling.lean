import Flowchart.Proofs.Mermaid.Places
import Flowchart.Proofs.Mermaid.Reading

/-!
# Written labels end where they were written

A label between its brackets or between bars is read back **in front of any text**, and the reader
stops right behind the closing mark. The value comes from the rules for readers of known texts
(`Reads`), the place from the tracking of readers (`Tracks`).
-/

namespace Flowchart.Mermaid

open Text (byteSize)

theorem shape_eq_ok (t : NodeType) (label : String) (rest : List Char) (start : Nat) :
    shape ⟨start, opening t ++ (Label.encode label.toList ++ (closing t ++ rest))⟩ =
      .ok ((t, label),
        ⟨start + byteSize (opening t ++ (Label.encode label.toList ++ closing t)), rest⟩) := by
  have htext : opening t ++ (Label.encode label.toList ++ (closing t ++ rest)) =
      opening t ++ (Label.encode label.toList ++ closing t) ++ rest := by
    simp only [List.append_assoc]
  have hreads := reads_shape t label.toList rest
  rw [htext, String.ofList_toList] at hreads
  obtain ⟨a, hread, rfl⟩ := hreads.exists_eq_ok (fun _ _ hc => tracks_shape hc) start
  rw [htext, hread]

theorem pipeLabel?_eq_ok (label : String) (rest : List Char) (start : Nat) :
    pipeLabel? ⟨start, pipeLabel (some label) ++ rest⟩ =
      .ok (some label, ⟨start + byteSize (pipeLabel (some label)), rest⟩) := by
  have hreads := reads_pipeLabel?_some label rest
  obtain ⟨a, hread, rfl⟩ := hreads.exists_eq_ok (fun _ _ hc => tracks_pipeLabel? hc) start
  exact hread

/-- **Shapes and labels on arrows are read back in any context.** Between the brackets of any node
type, and between bars, any label is read with its type from wherever the reader starts, and exactly
the text that follows is left. -/
theorem spelling_isInvertible (label : String) (rest : List Char) (start : Nat) :
    (∀ t : NodeType,
      shape ⟨start, opening t ++ (Label.encode label.toList ++ (closing t ++ rest))⟩ =
        .ok ((t, label),
          ⟨start + byteSize (opening t ++ (Label.encode label.toList ++ closing t)), rest⟩)) ∧
      pipeLabel? ⟨start, '|' :: (Label.encode label.toList ++ '|' :: rest)⟩ =
        .ok (some label,
          ⟨start + byteSize ('|' :: (Label.encode label.toList ++ ['|'])), rest⟩) := by
  refine ⟨fun t => shape_eq_ok t label rest start, ?_⟩
  have hbars : '|' :: (Label.encode label.toList ++ '|' :: rest) =
      pipeLabel (some label) ++ rest := by
    simp [pipeLabel]
  rw [hbars]
  exact pipeLabel?_eq_ok label rest start

/-- A label that starts with a slash stands in quotes, so it does not extend the opening bracket. -/
example : shape ⟨0, "[\"/a\"]]".toList⟩ = .ok ((.process, "/a"), ⟨6, [']']⟩) := by decide +kernel

end Flowchart.Mermaid
