import Flowchart.Source.Statement
import Flowchart.Vocabulary.Format
import Flowchart.Vocabulary.Kinds

/-!
# The D2 notation

How flowcharts are spelled in D2: a `shape` entry for each node type but the unspecified one, a
style entry for each edge type but the plain one, comments after a number sign, statements ended by
line feeds and semicolons and kept open by braces.
-/

namespace Flowchart.D2

open Text (sameLetters)

/-- Comments, statements and strings of D2. -/
def conventions : Conventions where
  lineComments := [['#']]
  semicolons := true
  brackets := [('{', '}')]
  escapes := true

/-! ## Shapes and styles -/

/-- The value of the `shape` entry of a node type. -/
def shape? : NodeType → Option String
  | .start => some "oval"
  | .finish => some "circle"
  | .process => some "rectangle"
  | .decision => some "diamond"
  | .data => some "cylinder"
  | .subprocess => some "package"
  | .unspecified => none

/-- The node type of a shape, up to ASCII case. -/
def ofShape? (name : String) : Option NodeType :=
  NodeType.all.find? fun t => (shape? t).any fun s => sameLetters s.toList name.toList

/-- The style entry of an edge type. -/
def style? : EdgeType → Option (String × String)
  | .plain => none
  | .conditional => some ("style.bold", "true")
  | .loopBack => some ("style.stroke-dash", "3")

/-- The edge type of a style entry. -/
def ofStyle? (key value : String) : Option EdgeType :=
  EdgeType.all.find? fun t => style? t = some (key, value)

/-! ## Directions -/

/-- The value of the `direction` entry. -/
def directionName : Direction → String
  | .topDown => "down"
  | .leftRight => "right"
  | .bottomUp => "up"
  | .rightLeft => "left"

/-- The direction of such a value, up to ASCII case. -/
def ofDirection? (name : String) : Option Direction :=
  Direction.all.find? fun d => sameLetters (directionName d).toList name.toList

/-! ## Keys -/

/-- Keys whose entries a flowchart cannot hold. -/
def unsupportedKeys : List String := ["classes", "vars", "layers", "scenarios", "steps"]

/-- Keys that mean something of their own unless they are quoted. -/
def specialKeys : List String := "direction" :: "title" :: unsupportedKeys

end Flowchart.D2
