import Flowchart.D2.Reading
import Flowchart.D2.Writing
import Flowchart.Dot.Reading
import Flowchart.Dot.Writing
import Flowchart.Flow.Reading
import Flowchart.Mermaid.Reading
import Flowchart.Mermaid.Writing
import Flowchart.PlantUml.Reading
import Flowchart.PlantUml.Writing

/-!
# Reading and writing by format

One function for each thing that can be done with a source, whatever it is written in. Writing never
fails.
-/

namespace Flowchart

/-- Reads a diagram in a notation. -/
def Format.parse : Format → String → Except ParseError Diagram
  | .mermaid => Mermaid.read
  | .plantUml => PlantUml.read
  | .d2 => D2.read
  | .dot => Dot.read

/-- Writes a diagram in a notation. -/
def Format.render : Format → Diagram → Direction → String
  | .mermaid => Mermaid.write
  | .plantUml => PlantUml.write
  | .d2 => D2.write
  | .dot => Dot.write

/-- Reads a source; the options are for flow text only. -/
def SourceFormat.parse (options : Flow.Options) : SourceFormat → String → Except ParseError Diagram
  | .text => Flow.read options
  | .structured format => format.parse

/-- The notation that a changed source is written back in; flow text becomes Mermaid. -/
def SourceFormat.target : SourceFormat → Format
  | .text => .mermaid
  | .structured format => format

/-- The direction that a diagram carries, or else top-down. -/
def Diagram.direction (d : Diagram) : Direction :=
  match (d.metadata.get? directionKey).map Direction.read with
  | some (.ok direction) => direction
  | _ => default

end Flowchart
