import Flowchart.Diagram.Basic
import Flowchart.Dot.Notation
import Flowchart.Text.Quoted

/-!
# Writing DOT

One directed graph: title and direction, then one statement for each node and each edge. An id is
quoted unless it is a plain ASCII word and no keyword. Attributes called `shape` or `label` are not
written, because they would change the node itself.
-/

namespace Flowchart.Dot

open Text (sameLetters)
open Text.Quoted (encode)

/-! ## Ids -/

/-- An ASCII letter or an underscore. -/
def startsBareId (c : Char) : Bool := c.isAlpha || c = '_'

/-- An ASCII letter or digit or an underscore. -/
def continuesBareId (c : Char) : Bool := c.isAlphanum || c = '_'

/-- The text may stand without quotes. -/
def isBareId (cs : List Char) : Bool :=
  cs.head?.any startsBareId && cs.all continuesBareId &&
    !keywords.any fun word => sameLetters word.toList cs

/-- The written form of an id. -/
def writtenId (id : String) : List Char :=
  if isBareId id.toList then id.toList else encode id.toList

/-! ## Lines -/

/-- A list of attributes in square brackets. -/
def attributeList (attributes : List (List Char)) : List Char :=
  '[' :: ([',', ' '].intercalate attributes ++ [']'])

/-- An attribute with a quoted value. -/
def labelAttribute (label : String) : List Char := "label=".toList ++ encode label.toList

/-- The attributes of a node that are written beside its label and shape. -/
def otherAttributes (n : Node) : List (String × String) :=
  n.attributes.entries.filter fun p => p.1 ≠ "shape" && p.1 ≠ "label"

/-- The attributes of a node statement. -/
def nodeAttributes (n : Node) : List (List Char) :=
  [labelAttribute n.label] ++
    ((shape? n.type).toList.map fun s => "shape=".toList ++ s.toList) ++
    (otherAttributes n).map fun p => writtenId p.1 ++ '=' :: encode p.2.toList

/-- The attributes of an edge statement. -/
def edgeAttributes (e : Edge) : List (List Char) :=
  e.label.toList.map labelAttribute ++
    (style? e.type).toList.map fun s => "style=".toList ++ s.toList

/-- The statement that declares a node. -/
def nodeStatement (n : Node) : List Char :=
  writtenId n.id ++ ' ' :: attributeList (nodeAttributes n)

/-- The statement that connects two nodes. -/
def edgeStatement (e : Edge) : List Char :=
  let attributes := edgeAttributes e
  writtenId e.source ++ " -> ".toList ++ writtenId e.target ++
    if attributes.isEmpty then [] else ' ' :: attributeList attributes

/-- The statements that set the title above the graph. -/
def titleStatements (title? : Option String) : List (List Char) :=
  match title? with
  | some title => [labelAttribute title, "labelloc=\"t\"".toList]
  | none => []

/-- The statements of a diagram. -/
def statements (d : Diagram) (direction : Direction) : List (List Char) :=
  titleStatements d.title? ++
    ["rankdir=".toList ++ (rankdir direction).toList] ++
    d.nodes.map nodeStatement ++
    d.edges.map edgeStatement

/-- The lines of a diagram, its statements indented. -/
def lines (d : Diagram) (direction : Direction) : List (List Char) :=
  ["digraph G \x7b".toList] ++
    ((statements d direction).map fun s => List.replicate 4 ' ' ++ s ++ [';']) ++
    [['}']]

/-- A diagram in DOT. -/
def write (d : Diagram) (direction : Direction) : String :=
  String.ofList (Text.unlines (lines d direction))

end Flowchart.Dot
