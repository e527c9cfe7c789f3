import Flowchart.Renaming
import Flowchart.Source.Statement
import Flowchart.Vocabulary.Format

/-!
# The PlantUML notation

How flowcharts are spelled in PlantUML: an element keyword for each node type, with a stereotype
where two types share a keyword, an arrow for each edge type, one statement a line, comments after
an apostrophe at the start of a line and between `/'` and `'/`.

PlantUML knows two layout directions, so **a direction comes back as its axis**.
-/

namespace Flowchart.PlantUml

open Text (lower sameLetters words)

/-- Comments, statements and strings of PlantUML. -/
def conventions : Conventions where
  lineStartComments := [['\'']]
  blockComment? := some (['/', '\''], ['\'', '/'])

/-! ## Elements -/

/-- The element keyword of a node type. -/
def element : NodeType → String
  | .start | .finish => "usecase"
  | .process => "rectangle"
  | .decision => "hexagon"
  | .data => "database"
  | .subprocess => "component"
  | .unspecified => "card"

/-- The stereotype that tells apart the node types of one keyword. -/
def stereotype? : NodeType → Option String
  | .start => some "start"
  | .finish => some "end"
  | _ => none

/-- The node type of a keyword and a stereotype, both up to ASCII case. A stereotype counts only
where the keyword needs one. -/
def ofElement? (keyword : List Char) (stereotype : Option (List Char)) : Option NodeType :=
  NodeType.all.find? fun t =>
    sameLetters (element t).toList keyword &&
      match stereotype? t, stereotype with
      | none, _ => true
      | some expected, some found => sameLetters expected.toList found
      | some _, none => false

/-- Element keywords that are read as processes. -/
def otherElements : List String :=
  ["actor", "agent", "artifact", "boundary", "cloud", "collections", "control", "entity", "file",
    "folder", "frame", "interface", "label", "node", "package", "person", "queue", "stack",
    "storage"]

/-- The word, in lower case, is an element keyword. -/
def isElement (word : String) : Bool :=
  (NodeType.all.any fun t => element t == word) || otherElements.contains word

/-! ## Statements without meaning for the graph -/

/-- First words of layout statements, which are skipped. -/
def skippedWords : List String := ["skinparam", "hide", "show", "scale"]

/-- First words of statements that a flowchart cannot hold. -/
def unsupportedWords : List String :=
  ["note", "legend", "header", "footer", "caption", "together", "class", "enum", "abstract",
    "partition"]

/-- A node id must not be the first word of a statement that is never an arrow. -/
def reservedWords : ReservedWords where
  words := "title" :: skippedWords
  caseless := true

/-! ## Arrows -/

/-- The arrow of an edge type. -/
def arrow : EdgeType → List Char
  | .plain => "-->".toList
  | .conditional => "-[bold]->".toList
  | .loopBack => "..>".toList

/-- The edge type that is written with exactly this arrow. -/
def ofArrow? (cs : List Char) : Option EdgeType := EdgeType.all.find? fun t => arrow t = cs

/-- The edge type of any arrow that is read, and whether it points to the left. An arrow with heads
on both sides is refused. -/
def readArrow? (cs : List Char) : Option (EdgeType × Bool) :=
  match ofArrow? cs with
  | some t => some (t, false)
  | none =>
    let left := cs.head? = some '<'
    let right := cs.getLast? = some '>'
    if left ∧ right then none
    else
      let type : EdgeType :=
        if (Text.breakAt? "[bold".toList cs).isSome then .conditional
        else if cs.contains '.' then .loopBack
        else .plain
      some (type, left && !right)

/-! ## Directions -/

/-- The statement that sets a direction. -/
def directionStatement (d : Direction) : String :=
  if d.isHorizontal then "left to right direction" else "top to bottom direction"

/-- The direction that a statement sets, up to ASCII case and the blanks between its words. -/
def ofDirection? (statement : List Char) : Option Direction :=
  let normal := lower ([' '].intercalate (words statement))
  [Direction.leftRight, .topDown].find? fun d => (directionStatement d).toList = normal

end Flowchart.PlantUml
