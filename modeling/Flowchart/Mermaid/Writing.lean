import Flowchart.Mermaid.Label
import Flowchart.Mermaid.Notation
import Flowchart.Text.Quoted
import Flowchart.Vocabulary.Format

/-!
# Writing Mermaid

The title stands in front matter; then come the header with the direction, the nodes, the edges and
the attributes, which become `style` statements. Attribute keys with a colon or comma and values
with a comma or semicolon cannot be read back.
-/

namespace Flowchart.Mermaid

/-- The blanks in front of a statement. -/
def indent : List Char := "    ".toList

/-- The front matter of a title. -/
def frontMatterLines (title? : Option String) : List (List Char) :=
  match title? with
  | some title => ["---".toList, "title: ".toList ++ Text.Quoted.encode title.toList, "---".toList]
  | none => []

/-- The statement that declares a node. -/
def nodeLine (ids : Renaming) (n : Node) : List Char :=
  indent ++ (ids.apply n.id).toList ++ opening n.type ++ Label.encode n.label.toList ++
    closing n.type

/-- The label on an arrow. -/
def pipeLabel : Option String → List Char
  | some label => '|' :: (Label.encode label.toList ++ ['|'])
  | none => []

/-- The statement that connects two nodes. -/
def edgeLine (ids : Renaming) (e : Edge) : List Char :=
  indent ++ (ids.apply e.source).toList ++ ' ' :: arrow e.type ++ pipeLabel e.label ++
    ' ' :: (ids.apply e.target).toList

/-- The statement that carries the attributes of a node. -/
def styleLine (ids : Renaming) (n : Node) : List Char :=
  let entries := n.attributes.entries.map fun p => p.1.toList ++ ':' :: p.2.toList
  indent ++ "style ".toList ++ (ids.apply n.id).toList ++ ' ' :: [','].intercalate entries

/-- The lines of a diagram. -/
def lines (d : Diagram) (direction : Direction) : List (List Char) :=
  let ids := Renaming.ofDiagram reservedWords d
  frontMatterLines d.title? ++
    ["flowchart ".toList ++ direction.code.toList] ++
    d.nodes.map (nodeLine ids) ++
    d.edges.map (edgeLine ids) ++
    (d.nodes.filter fun n => !n.attributes.isEmpty).map (styleLine ids)

/-- A diagram in Mermaid. -/
def write (d : Diagram) (direction : Direction) : String :=
  String.ofList (Text.unlines (lines d direction))

end Flowchart.Mermaid
