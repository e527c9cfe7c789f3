import Flowchart.Text.Basic
import Flowchart.Vocabulary.Basic

/-!
# Formats and directions

`Format` lists the notations that are both read and written, `SourceFormat` adds the free-form flow
text, which is only read, and `Direction` is the layout hint that every notation can carry.

Each has two kinds of names: those typed by a user, read up to ASCII case with a few short forms,
and the exact names that a stored setting uses.
-/

namespace Flowchart

open Text (lower trim)

/-! ## Formats -/

/-- A notation that is both read and written. -/
inductive Format where
  | mermaid
  | plantUml
  | d2
  | dot
  deriving DecidableEq, Repr

namespace Format

/-- Every format. -/
def all : List Format := [mermaid, plantUml, d2, dot]

/-- The usual name of a format. -/
def name : Format → String
  | mermaid => "mermaid"
  | plantUml => "plantuml"
  | d2 => "d2"
  | dot => "dot"

/-- The preferred file extension, without its dot. -/
def extension : Format → String
  | mermaid => "mmd"
  | plantUml => "puml"
  | d2 => "d2"
  | dot => "dot"

/-- The format of files with this extension, up to ASCII case. -/
def ofExtension? (s : String) : Option Format :=
  match s.toLower with
  | "mmd" | "mermaid" => some mermaid
  | "puml" | "plantuml" | "pu" => some plantUml
  | "d2" => some d2
  | "dot" | "gv" => some dot
  | _ => none

/-- Reads a name or short name up to ASCII case. -/
def read (s : String) : Except Unsupported Format :=
  match s.toLower with
  | "mermaid" | "mmd" => .ok mermaid
  | "plantuml" | "puml" => .ok plantUml
  | "d2" => .ok d2
  | "dot" | "graphviz" | "gv" => .ok dot
  | _ => .error ⟨.format, s⟩

/-- The name of a format in a stored setting. -/
def storedName : Format → String
  | mermaid => "mermaid"
  | plantUml => "plant_uml"
  | d2 => "d2"
  | dot => "dot"

/-- Reads a stored name or one of its aliases, exactly as written. -/
def ofStored? : String → Option Format
  | "mermaid" | "mmd" => some mermaid
  | "plant_uml" | "puml" => some plantUml
  | "d2" => some d2
  | "dot" | "graphviz" | "gv" => some dot
  | _ => none

end Format

/-- What a source is written in: free-form flow text or one of the notations. -/
inductive SourceFormat where
  | text
  | structured (format : Format)
  deriving DecidableEq, Repr

namespace SourceFormat

/-- The usual name of a source format. -/
def name : SourceFormat → String
  | text => "text"
  | structured format => format.name

/-- Reads a name or short name up to ASCII case. -/
def read (s : String) : Except Unsupported SourceFormat :=
  match s.toLower with
  | "text" | "txt" => .ok text
  | _ =>
    match Format.read s with
    | .ok format => .ok (structured format)
    | .error _ => .error ⟨.sourceFormat, s⟩

end SourceFormat

/-! ## Directions -/

/-- The layout hint of a flowchart. -/
inductive Direction where
  | topDown
  | leftRight
  | bottomUp
  | rightLeft
  deriving DecidableEq, Repr

namespace Direction

/-- A flowchart runs from the top down unless it says otherwise. -/
instance : Inhabited Direction := ⟨topDown⟩

/-- Every direction. -/
def all : List Direction := [topDown, leftRight, bottomUp, rightLeft]

/-- The two-letter code of a direction. -/
def code : Direction → String
  | topDown => "TD"
  | leftRight => "LR"
  | bottomUp => "BT"
  | rightLeft => "RL"

/-- The main axis is horizontal. -/
def isHorizontal : Direction → Bool
  | leftRight | rightLeft => true
  | topDown | bottomUp => false

/-- The direction of a trimmed name in lower case: a code, or two words that may be joined by a
hyphen or an underscore. -/
def ofLowerName? : String → Option Direction
  | "td" | "tb" | "top-down" | "top_down" | "topdown" => some topDown
  | "lr" | "left-right" | "left_right" | "leftright" => some leftRight
  | "bt" | "bottom-up" | "bottom_up" | "bottomup" => some bottomUp
  | "rl" | "right-left" | "right_left" | "rightleft" => some rightLeft
  | _ => none

/-- Reads a name up to surrounding blanks and ASCII case. -/
def read (s : String) : Except Unsupported Direction :=
  match ofLowerName? (String.ofList (lower (trim s.toList))) with
  | some direction => .ok direction
  | none => .error ⟨.direction, s⟩

/-- The name of a direction in a stored setting. -/
def storedName : Direction → String
  | topDown => "top-down"
  | leftRight => "left-right"
  | bottomUp => "bottom-up"
  | rightLeft => "right-left"

/-- Reads a stored name or one of its aliases, exactly as written. -/
def ofStored? : String → Option Direction
  | "top-down" | "TD" | "TB" => some topDown
  | "left-right" | "LR" => some leftRight
  | "bottom-up" | "BT" => some bottomUp
  | "right-left" | "RL" => some rightLeft
  | _ => none

/-- A code is read back as its direction. -/
theorem read_code (d : Direction) : read d.code = .ok d := by cases d <;> rfl

end Direction

end Flowchart
