import Flowchart.PlantUml.Label
import Flowchart.PlantUml.Notation

/-!
# Writing PlantUML

Title, direction, one element for each node and one arrow for each edge between `@startuml` and
`@enduml`. Node attributes and empty edge labels are not written.
-/

namespace Flowchart.PlantUml

open Text (trimEnd)

/-- The statement that sets the title. -/
def titleLines (title? : Option String) : List (List Char) :=
  match title? with
  | some title => [trimEnd ("title ".toList ++ Label.encodePadded title.toList)]
  | none => []

/-- The statement that declares a node. -/
def nodeLine (ids : Renaming) (n : Node) : List Char :=
  let stereotype := match stereotype? n.type with
    | some name => " <<".toList ++ name.toList ++ ">>".toList
    | none => []
  (element n.type).toList ++ " \"".toList ++ Label.encode n.label.toList ++ "\" as ".toList ++
    (ids.apply n.id).toList ++ stereotype

/-- The label behind an arrow. -/
def edgeLabel : Option String → List Char
  | none => []
  | some label => if label = "" then [] else " : ".toList ++ Label.encodePadded label.toList

/-- The statement that connects two nodes. -/
def edgeLine (ids : Renaming) (e : Edge) : List Char :=
  (ids.apply e.source).toList ++ ' ' :: arrow e.type ++ ' ' :: (ids.apply e.target).toList ++
    edgeLabel e.label

/-- The lines of a diagram. -/
def lines (d : Diagram) (direction : Direction) : List (List Char) :=
  let ids := Renaming.ofDiagram reservedWords d
  ["@startuml".toList] ++
    titleLines d.title? ++
    [(directionStatement direction).toList] ++
    d.nodes.map (nodeLine ids) ++
    d.edges.map (edgeLine ids) ++
    ["@enduml".toList]

/-- A diagram in PlantUML. -/
def write (d : Diagram) (direction : Direction) : String :=
  String.ofList (Text.unlines (lines d direction))

end Flowchart.PlantUml
