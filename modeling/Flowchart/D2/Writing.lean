import Flowchart.D2.Notation
import Flowchart.Diagram.Basic
import Flowchart.Text.Quoted

/-!
# Writing D2

Direction, title, one shape for each node and one connection for each edge. A key is quoted unless
it is a plain word without special meaning. Attributes called `shape` or `label` are not written,
because they would change the node itself.
-/

namespace Flowchart.D2

open Text (isAlphanumeric isWordChar sameLetters)
open Text.Quoted (encode)

/-! ## Keys -/

/-- A plain word. -/
def isWord (cs : List Char) : Bool := !cs.isEmpty && cs.all isWordChar

/-- The key of a node. -/
def nodeKey (id : String) : List Char :=
  if isWord id.toList && !specialKeys.any fun key => sameLetters key.toList id.toList then id.toList
  else encode id.toList

/-- A part of a dotted path. -/
def isPathPart (cs : List Char) : Bool :=
  !cs.isEmpty && cs.all fun c => isWordChar c || c = '-'

/-- The key of a map entry, bare if it is a dotted path. -/
def mapKey (key : String) : List Char :=
  if (key.toList.splitOn '.').all isPathPart && (Text.breakAt? ['-', '-'] key.toList).isNone then
    key.toList
  else encode key.toList

/-! ## Lines -/

/-- A map of entries with a blank in front, or nothing for no entries. -/
def map (entries : List (List Char)) : List Char :=
  if entries.isEmpty then []
  else ' ' :: '{' :: ([';', ' '].intercalate entries ++ ['}'])

/-- The attributes that are written. -/
def writtenAttributes (n : Node) : List (String × String) :=
  n.attributes.entries.filter fun p => p.1 ≠ "shape" && p.1 ≠ "label"

/-- The map of a node. -/
def nodeEntries (n : Node) : List (List Char) :=
  ((shape? n.type).toList.map fun s => "shape: ".toList ++ s.toList) ++
    (writtenAttributes n).map fun p => mapKey p.1 ++ ':' :: ' ' :: encode p.2.toList

/-- The statement that declares a node. -/
def nodeLine (n : Node) : List Char :=
  nodeKey n.id ++ ':' :: ' ' :: encode n.label.toList ++ map (nodeEntries n)

/-- The statement that connects two nodes. -/
def edgeLine (e : Edge) : List Char :=
  let style := (style? e.type).toList.map fun p => p.1.toList ++ ':' :: ' ' :: p.2.toList
  let label := match e.label with
    | some label => ' ' :: encode label.toList
    | none => []
  nodeKey e.source ++ " -> ".toList ++ nodeKey e.target ++
    (if e.label.isSome || !style.isEmpty then [':'] else []) ++ label ++ map style

/-- The statement that sets the title. -/
def titleLines (title? : Option String) : List (List Char) :=
  match title? with
  | some title =>
    ["title: ".toList ++ encode title.toList ++
      map ["near: top-center".toList, "shape: text".toList]]
  | none => []

/-- The lines of a diagram. -/
def lines (d : Diagram) (direction : Direction) : List (List Char) :=
  ["direction: ".toList ++ (directionName direction).toList] ++
    titleLines d.title? ++
    d.nodes.map nodeLine ++
    d.edges.map edgeLine

/-- A diagram in D2. -/
def write (d : Diagram) (direction : Direction) : String :=
  String.ofList (Text.unlines (lines d direction))

end Flowchart.D2
