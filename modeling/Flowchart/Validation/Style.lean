import Flowchart.Validation.Finding

/-!
# Style suggestions

Suggestions that never make a diagram invalid: long labels, many generated ids and a missing title.
-/

namespace Flowchart.Style

/-- The number of characters above which a label is long. -/
def longLabelLength : Nat := 50

/-- How many generated ids are tolerated. -/
def toleratedGenericIds : Nat := 5

/-- The letter `n` followed by ASCII digits only, at least one. -/
def isGenericId (id : String) : Bool :=
  match id.toList with
  | 'n' :: digits => !digits.isEmpty && digits.all Char.isDigit
  | _ => false

/-- The suggestions for a diagram: a line for each long label, then the generated ids, then the
title. -/
def suggestions (d : Diagram) : List Issue :=
  let long := d.nodes.filter fun n => longLabelLength < n.label.length
  let generic := (d.nodes.filter fun n => isGenericId n.id).length
  let untitled := match d.title? with
    | none | some "" => true
    | some _ => false
  (long.map fun n => ⟨"label-length", .longLabel n.id n.label⟩) ++
    (if toleratedGenericIds < generic then [⟨"naming-conventions", .genericIds generic⟩] else []) ++
    (if untitled then [⟨"metadata-title", .missingTitle⟩] else [])

end Flowchart.Style
