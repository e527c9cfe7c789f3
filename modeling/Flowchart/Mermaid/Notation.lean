import Flowchart.Renaming
import Flowchart.Source.Statement

/-!
# The Mermaid notation

How flowcharts are spelled in Mermaid: a pair of brackets for each node type, an arrow for each edge
type, comments from `%%` to the end of the line and statements ended by line feeds and semicolons.
-/

namespace Flowchart.Mermaid

/-- Comments, statements and strings of Mermaid. -/
def conventions : Conventions where
  lineComments := [['%', '%']]
  semicolons := true

/-- First words of statements that are no part of a plain flowchart. -/
def unsupportedWords : List String :=
  ["subgraph", "end", "classDef", "class", "click", "linkStyle", "direction", "accTitle",
    "accDescr"]

/-- A node id must not be the first word of such a statement. -/
def reservedWords : ReservedWords where
  words := unsupportedWords

/-! ## Brackets -/

/-- The bracket in front of a node label. -/
def opening : NodeType → List Char
  | .start => ['(', '[']
  | .finish => ['(', '(', '(']
  | .process => ['[']
  | .decision => ['{']
  | .data => ['[', '(']
  | .subprocess => ['[', '[']
  | .unspecified => ['(']

/-- The bracket behind a node label. -/
def closing : NodeType → List Char
  | .start => [']', ')']
  | .finish => [')', ')', ')']
  | .process => [']']
  | .decision => ['}']
  | .data => [')', ']']
  | .subprocess => [']', ']']
  | .unspecified => [')']

/-- An opening bracket, what may close it and the node type that it stands for. -/
structure Bracket where
  opening : List Char
  closings : List (List Char)
  type : NodeType
  deriving DecidableEq, Repr

/-- The brackets of a node type. -/
def bracketOf (t : NodeType) : Bracket := ⟨opening t, [closing t], t⟩

/-- Every bracket that is read, longer openings first. The shapes without a node type of their own
are read as processes. -/
def brackets : List Bracket :=
  [bracketOf .finish, bracketOf .start, bracketOf .data, bracketOf .subprocess,
    ⟨['(', '('], [[')', ')']], .process⟩,
    ⟨['{', '{'], [['}', '}']], .process⟩,
    ⟨['[', '/'], [['/', ']'], ['\\', ']']], .process⟩,
    ⟨['[', '\\'], [['\\', ']'], ['/', ']']], .process⟩,
    bracketOf .process, bracketOf .decision, bracketOf .unspecified,
    ⟨['>'], [[']']], .process⟩]

/-- The node types by the length of their opening brackets, longer ones first. -/
def typesByOpening : List NodeType :=
  [.finish, .start, .data, .subprocess, .process, .decision, .unspecified]

/-! ## Arrows -/

/-- The arrow of an edge type. -/
def arrow : EdgeType → List Char
  | .plain => ['-', '-', '>']
  | .conditional => ['=', '=', '>']
  | .loopBack => ['-', '.', '-', '>']

/-- The edge type that is written with exactly this arrow. -/
def ofArrow? (cs : List Char) : Option EdgeType := EdgeType.all.find? fun t => arrow t = cs

/-- The characters of arrows. -/
def isArrowChar (c : Char) : Bool := c = '-' || c = '.' || c = '=' || c = '>'

/-- The edge type of any arrow that is read. Dotted arrows go back and need a head, double lines
are conditional, and a plain line without a head has three strokes at least. -/
def readArrow? (cs : List Char) : Option EdgeType :=
  match ofArrow? cs with
  | some t => some t
  | none =>
    let headed := cs.getLast? = some '>'
    let body := if headed then cs.dropLast else cs
    if body.contains '>' then none
    else if body.contains '.' then if headed then some .loopBack else none
    else if body.all (· = '=') && 2 ≤ body.length then some .conditional
    else if body.all (· = '-') && (3 ≤ body.length || (headed && 2 ≤ body.length)) then some .plain
    else none

end Flowchart.Mermaid
