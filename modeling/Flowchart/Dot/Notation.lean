import Flowchart.Source.Statement
import Flowchart.Vocabulary.Format
import Flowchart.Vocabulary.Kinds

/-!
# The DOT notation

How flowcharts are spelled in DOT: a `shape` attribute for each node type but the unspecified one, a
`style` attribute for each edge type but the plain one, a `rankdir` for each direction. Statements
end at semicolons and line feeds and are kept open by braces and square brackets.
-/

namespace Flowchart.Dot

open Text (sameLetters)

/-- Comments, statements and strings of DOT. -/
def conventions : Conventions where
  lineComments := [['/', '/']]
  lineStartComments := [['#']]
  blockComment? := some (['/', '*'], ['*', '/'])
  semicolons := true
  brackets := [('{', '}'), ('[', ']')]
  escapes := true

/-! ## Shapes and styles -/

/-- The `shape` of a node type. -/
def shape? : NodeType → Option String
  | .start => some "ellipse"
  | .finish => some "doublecircle"
  | .process => some "box"
  | .decision => some "diamond"
  | .data => some "cylinder"
  | .subprocess => some "box3d"
  | .unspecified => none

/-- The node type of a shape, up to ASCII case. -/
def ofShape? (name : String) : Option NodeType :=
  NodeType.all.find? fun t => (shape? t).any fun s => sameLetters s.toList name.toList

/-- The `style` of an edge type. -/
def style? : EdgeType → Option String
  | .plain => none
  | .conditional => some "bold"
  | .loopBack => some "dashed"

/-- The edge type of a style, up to ASCII case. -/
def ofStyle? (name : String) : Option EdgeType :=
  EdgeType.all.find? fun t => (style? t).any fun s => sameLetters s.toList name.toList

/-! ## Directions -/

/-- The `rankdir` of a direction. -/
def rankdir : Direction → String
  | .topDown => "TB"
  | .leftRight => "LR"
  | .bottomUp => "BT"
  | .rightLeft => "RL"

/-- The direction of a `rankdir`, up to ASCII case. -/
def ofRankdir? (name : String) : Option Direction :=
  Direction.all.find? fun d => sameLetters (rankdir d).toList name.toList

/-! ## Keywords -/

/-- Words that are never a bare id. -/
def keywords : List String := ["node", "edge", "graph", "digraph", "subgraph", "strict"]

end Flowchart.Dot
