import Flowchart.Conversion.Formats
import Flowchart.Graph.Reduction

/-!
# Conversions

A conversion reads a source, transforms the diagram as the settings say and writes it. The direction
of the output is the one asked for, or else that of the settings, or else that of the diagram.
-/

namespace Flowchart

/-- What a user can settle once for all conversions. -/
structure Settings where
  /-- The direction of every output that is not asked for in another one. -/
  direction : Option Direction := none
  /-- How flow text is read. -/
  text : Flow.Options := {}
  /-- Transitive edges are removed. -/
  simplify : Bool := false
  /-- Nodes without edges are removed together with them. -/
  removeIsolated : Bool := false
  deriving DecidableEq, Repr

namespace Settings

/-- Reads a source. -/
def parse (s : Settings) (format : SourceFormat) (source : String) : Except ParseError Diagram :=
  format.parse s.text source

/-- Transforms a diagram. -/
def transform (s : Settings) (d : Diagram) : Diagram :=
  if s.simplify then d.simplify s.removeIsolated else d

/-- Writes a diagram. -/
def render (s : Settings) (d : Diagram) (format : Format) (asked : Option Direction) : String :=
  format.render d ((asked.or s.direction).getD d.direction)

/-- Reads, transforms and writes. -/
def convert (s : Settings) (source : String) (sourceFormat : SourceFormat) (format : Format)
    (asked : Option Direction) : Except ParseError String := do
  let d ← s.parse sourceFormat source
  return s.render (s.transform d) format asked

end Settings

end Flowchart
