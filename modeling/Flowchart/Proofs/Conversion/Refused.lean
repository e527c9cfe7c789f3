import Flowchart.Proofs.Conversion.Accepted
import Flowchart.Proofs.D2.Places
import Flowchart.Proofs.Dot.Places
import Flowchart.Proofs.Flow.Places
import Flowchart.Proofs.Mermaid.Places
import Flowchart.Proofs.PlantUml.Places

/-!
# Where a refusal points

A reader works on cut and blanked copies of its source and still has to name places of the source
itself. Each notation shows this for its drafts and flow text for its chains; here they meet:
**every diagnostic of a refused source points into that source**.
-/

namespace Flowchart

/-- **The draft of a source is placed in every notation**, and so is the complaint where there is
none. -/
theorem Format.places_draft (F : Format) (source : List Char) :
    Places source (F.draft source) (Draft.IsPlaced source) := by
  cases F with
  | mermaid => exact Mermaid.places_draft source
  | plantUml => exact PlantUml.places_draft source
  | d2 => exact D2.places_draft source
  | dot => exact Dot.places_draft source

namespace SourceFormat

/-- **Whatever the source, its format and the options, all that is said about a refused source points
into it.** -/
theorem pointsInto_of_parse {options : Flow.Options} {sourceFormat : SourceFormat} {source : String}
    {e : ParseError} (h : sourceFormat.parse options source = .error e) :
    ∀ problem ∈ e.diagnostics, problem.PointsInto source := by
  cases sourceFormat with
  | text => exact Flow.pointsInto_of_read h
  | structured F =>
    change F.parse source = .error e at h
    have hplaces := F.places_draft source.toList
    cases hdraft : F.draft source.toList with
    | error problem =>
      rw [Format.parse_of_problem hdraft] at h
      obtain rfl := Except.error.inj h
      exact ParseError.pointsInto_single (hplaces.error problem hdraft)
    | ok d =>
      rw [Format.parse_of_draft hdraft] at h
      exact (hplaces.ok d hdraft).pointsInto_of_resolve h

/-- A missing node behind a comment, with characters of two and of four bytes in front of it. -/
theorem pointsInto_of_parse_comment :
    ∃ e, (structured .mermaid).parse {} "graph LR\n%% née 🦀\na[é] --> b" = .error e ∧
      e.diagnostics ≠ [] ∧
      ∀ problem ∈ e.diagnostics, problem.PointsInto "graph LR\n%% née 🦀\na[é] --> b" := by
  have hrefused :
      ((structured .mermaid).parse {} "graph LR\n%% née 🦀\na[é] --> b").isOk = false := by
    decide +kernel
  cases hparse : (structured .mermaid).parse {} "graph LR\n%% née 🦀\na[é] --> b" with
  | error e => exact ⟨e, rfl, diagnostics_ne_nil hparse, pointsInto_of_parse hparse⟩
  | ok d => rw [hparse] at hrefused; exact absurd hrefused.symm Bool.false_ne_true

end SourceFormat

end Flowchart
