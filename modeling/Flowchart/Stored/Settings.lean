import Flowchart.Conversion.Settings
import Flowchart.Stored.Value

/-!
# Stored settings

The settings as a record of three sections, `render`, `text` and `transform`, every field of which
may be left out.
-/

namespace Flowchart

namespace StoredValue

/-- The section about the output. -/
def direction? (value : StoredValue) : Option (Option Direction) :=
  match value.fields? ["direction"] with
  | some [direction] =>
    orDefault none (nullable? fun v => v.word?.bind Direction.ofStored?) direction
  | _ => none

/-- The section about flow text. -/
def flowOptions? (value : StoredValue) : Option Flow.Options :=
  match value.fields? ["title", "positional_terminals"] with
  | some [title, positionalTerminals] => do
    let title ← orDefault none (nullable? text?) title
    let positionalTerminals ← orDefault false bool? positionalTerminals
    return { title, positionalTerminals }
  | _ => none

/-- The section about transformations: whether to simplify, and whether to remove nodes too. -/
def transform? (value : StoredValue) : Option (Bool × Bool) :=
  match value.fields? ["simplify", "remove_isolated"] with
  | some [simplify, removeIsolated] => do
    let simplify ← orDefault false bool? simplify
    let removeIsolated ← orDefault false bool? removeIsolated
    return (simplify, removeIsolated)
  | _ => none

/-- All settings. -/
def settings? (value : StoredValue) : Option Settings :=
  match value.fields? ["render", "text", "transform"] with
  | some [render, flow, transform] => do
    let direction ← orDefault none direction? render
    let flow ← orDefault {} flowOptions? flow
    let (simplify, removeIsolated) ← orDefault (false, false) transform? transform
    return { direction, text := flow, simplify, removeIsolated }
  | _ => none

end StoredValue

end Flowchart
