import Flowchart.Dot.Notation
import Flowchart.Source.Draft
import Flowchart.Source.Reader

/-!
# Reading DOT

A source holds one directed graph. Its body declares nodes and chains of edges, sets attributes of
the graph, and sets default attributes for the nodes and edges **of the statements that follow**.
The attributes `shape` and `label` of a node give its type and label, the others stay attributes;
`style` and `label` of an edge give its type and label; `label` and `rankdir` of the graph give the
title and the direction. Undirected graphs, subgraphs and HTML strings are refused.
-/

namespace Flowchart.Dot

open Text (byteSize isBlank isWordChar sameLetters trim)

/-! ## Parts of a statement -/

/-- An attribute with its value. -/
abbrev Attribute := String × String

/-- The value of an attribute; a later one overrides an earlier one. -/
def valueOf? (attributes : List Attribute) (name : String) : Option String :=
  (attributes.reverse.find? fun a => a.1 = name).map Prod.snd

/-- Whose defaults a statement sets. -/
inductive Owner where
  | graph
  | node
  | edge
  deriving DecidableEq, Repr

/-- The keyword of an owner. -/
def Owner.keyword : Owner → String
  | graph => "graph"
  | node => "node"
  | edge => "edge"

/-- A statement of the body. A chain of one id declares a node, a longer one connects its ids. -/
inductive BodyStatement where
  | defaults (owner : Owner) (attributes : List Attribute)
  | assignment (name value : String)
  | chain (first : Spanned String) (rest : List (Spanned String)) (attributes : List Attribute)

/-- A string in angle brackets. -/
def htmlString : Fault where
  code := .unrecognizedStatement
  message := "HTML strings are not supported"
  help := some "use a quoted string"

/-- An edge without a direction. -/
def undirectedEdge : Fault where
  code := .unexpectedToken
  message := "undirected edge in a digraph"
  help := some "use `->`"

/-- A graph without directions. -/
def undirectedGraph : Fault where
  code := .badHeader
  message := "undirected graphs are not supported"
  help := some "use `digraph` with `->` edges"

/-- An attribute list whose closing bracket is missing. -/
def unclosedList : Fault where
  code := .unclosedDelimiter
  message := "unclosed attribute list"
  help := some "add the closing `]`"

/-- Reads an id: a quoted string, or a word that may have dots in it. -/
def id : Reader String := do
  if ← Reader.lookingAt ['"'] then
    let text ← Reader.escapedString
    return String.ofList text
  else if ← Reader.lookingAt ['<'] then
    Reader.fault htmlString (← Reader.position)
  else
    let word ← Reader.named "identifier" (Reader.takeAtLeast 1 fun c => isWordChar c || c = '.')
    return String.ofList word

/-- Reads the attributes of a list up to its closing bracket. The list was opened at `start`. -/
def attributes : (fuel : Nat) → (start : Nat) → Reader (List Attribute)
  | 0, _ => return []
  | fuel + 1, start => do
    let _ ← Reader.takeWhile fun c => isBlank c || c = ',' || c = ';'
    if ← Reader.accept [']'] then return []
    else if ← Reader.atEnd then Reader.fault unclosedList start
    else
      let name ← Reader.named "attribute" id
      Reader.blanks
      let value ←
        if ← Reader.accept ['='] then
          Reader.blanks
          Reader.named "attribute value" id
        else pure "true"
      let rest ← attributes fuel start
      return (name, value) :: rest

/-- Reads one list in square brackets. -/
def attributeListBody : Reader (List Attribute) := do
  let c ← Reader.cursor
  if ← Reader.accept ['['] then attributes c.rest.length c.pos
  else Reader.expected "`[`"

/-- Reads further lists, as long as they follow. -/
def moreAttributeLists : (fuel : Nat) → Reader (List Attribute)
  | 0 => return []
  | fuel + 1 => do
    Reader.blanks
    if ← Reader.lookingAt ['['] then
      let first ← attributeListBody
      let rest ← moreAttributeLists fuel
      return first ++ rest
    else return []

/-- Reads one list or more. -/
def attributeLists : Reader (List Attribute) := do
  let first ← attributeListBody
  let c ← Reader.cursor
  let rest ← moreAttributeLists (c.rest.length + 1)
  return first ++ rest

/-- Reads a keyword and the defaults behind it. -/
def defaultsFor (owner : Owner) : Reader Owner := do
  let _ ← Reader.keyword owner.keyword
  return owner

/-- Reads the defaults of graph, nodes or edges. -/
def defaults : Reader BodyStatement := do
  let owner ← Reader.or (defaultsFor .graph) (Reader.or (defaultsFor .node) (defaultsFor .edge))
  Reader.blanks
  let attributes ← attributeLists
  return .defaults owner attributes

/-- Reads an attribute of the graph. -/
def assignment : Reader BodyStatement := do
  let name ← id
  Reader.blanks
  if ← Reader.accept ['='] then
    Reader.blanks
    let value ← id
    return .assignment name value
  else fun c => .error (.expected [] c)

/-- Reads the id of a node. -/
def nodeId : Reader (Spanned String) := Reader.spanned (Reader.named "node id" id)

/-- Reads arrows, each with the id behind it. -/
def links : (fuel : Nat) → Reader (List (Spanned String))
  | 0 => return []
  | fuel + 1 => do
    Reader.blanks
    let start ← Reader.position
    if ← Reader.accept ['-', '>'] then
      Reader.blanks
      let next ← nodeId
      let rest ← links fuel
      return next :: rest
    else if ← Reader.accept ['-', '-'] then Reader.fault undirectedEdge start
    else return []

/-- Reads a node or a chain of edges. -/
def chain : Reader BodyStatement := do
  let first ← nodeId
  let c ← Reader.cursor
  let rest ← links (c.rest.length + 1)
  let attributes ← if ← Reader.lookingAt ['['] then attributeLists else pure []
  return .chain first rest attributes

/-- Reads any statement of the body. -/
def bodyStatement : Reader BodyStatement := Reader.or defaults (Reader.or assignment chain)

/-! ## Statements -/

/-- What has been read so far, and the defaults that are in force. -/
structure Progress where
  draft : Draft := {}
  nodeDefaults : List Attribute := []
  edgeDefaults : List Attribute := []

namespace Progress

/-- Reports a problem. -/
def report (p : Progress) (problem : Diagnostic) : Progress :=
  { p with draft := p.draft.report problem }

/-- The complaint about a direction that is none. -/
def unknownRankdir (s : Statement) (value : String) : Diagnostic where
  code := some .unexpectedToken
  message := s!"unknown rankdir `{value}`"
  labels := [.primary s.span "expected TB, LR, BT or RL"]

/-- The complaint about a graph inside the graph. -/
def subgraph (s : Statement) : Diagnostic where
  code := some .unrecognizedStatement
  message := "subgraphs are not supported"
  labels := [.primary s.span ErrorCode.unrecognizedStatement.description]
  help := some "declare nodes and edges at the top level"

/-- Sets attributes of the graph, up to the first one that is faulty. -/
def setGraph (p : Progress) (s : Statement) : List Attribute → Progress
  | [] => p
  | (name, value) :: rest =>
    if name = "label" then setGraph { p with draft := p.draft.setTitle value } s rest
    else if name = "rankdir" then
      match ofRankdir? value with
      | some direction => setGraph { p with draft := p.draft.setDirection direction } s rest
      | none => p.report (unknownRankdir s value)
    else setGraph p s rest

/-- The node with these attributes. A shape that stands for no node type is a process, and the label
`\N` stands for the id. -/
def node (id : String) (attributes : List Attribute) : Node :=
  let type := match valueOf? attributes "shape" with
    | some shape => (ofShape? shape).getD .process
    | none => .unspecified
  let label := ((valueOf? attributes "label").filter (· ≠ "\\N")).getD id
  let plain : Node := { id, label, type }
  plain.withAttributes (attributes.filter fun a => a.1 ≠ "shape" && a.1 ≠ "label")

/-- The edge type of a list of styles: that of the first style that has one. -/
def edgeType (attributes : List Attribute) : EdgeType :=
  match valueOf? attributes "style" with
  | some styles =>
    ((styles.toList.splitOn ',').findSome? fun style =>
      ofStyle? (String.ofList (trim style))).getD .plain
  | none => .plain

/-- Adds the edges of a chain, all with the same label and type. -/
def connectAll (d : Draft) (attributes : List Attribute) (source : Spanned String) :
    List (Spanned String) → Draft
  | [] => d
  | target :: rest =>
    let edge : Edge :=
      { source := source.value, target := target.value, label := valueOf? attributes "label",
        type := edgeType attributes }
    connectAll (d.connect edge source.span target.span) attributes target rest

/-- Adds what a statement says. -/
def add (p : Progress) (s : Statement) : BodyStatement → Progress
  | .defaults .graph attributes => p.setGraph s attributes
  | .defaults .node attributes => { p with nodeDefaults := p.nodeDefaults ++ attributes }
  | .defaults .edge attributes => { p with edgeDefaults := p.edgeDefaults ++ attributes }
  | .assignment name value => p.setGraph s [(name, value)]
  | .chain first [] attributes =>
    { p with draft := p.draft.declare (node first.value (p.nodeDefaults ++ attributes)) first.span }
  | .chain first rest attributes =>
    { p with draft := connectAll p.draft (p.edgeDefaults ++ attributes) first rest }

/-- Reads one statement of the body. -/
def readStatement (p : Progress) (s : Statement) : Progress :=
  if sameLetters "subgraph".toList (s.text.takeWhile isWordChar) || ['{'].isPrefixOf s.text then
    p.report (subgraph s)
  else
    match s.read bodyStatement with
    | .ok statement => p.add s statement
    | .error problem => p.report problem

end Progress

/-! ## Graphs -/

/-- Reads the header of a graph up to its opening brace. -/
def header : Reader Unit := do
  let _ ← Reader.optional do
    let _ ← Reader.keyword "strict"
    Reader.someBlanks
  let start ← Reader.position
  let kind ← Reader.named "`digraph`" (Reader.or (Reader.keyword "digraph") (Reader.keyword "graph"))
  if sameLetters kind "graph".toList then Reader.fault undirectedGraph start
  else
    Reader.blanks
    let _ ← Reader.optional id
    Reader.blanks
    if ← Reader.accept ['{'] then return ()
    else Reader.expected "`\x7b`"

/-- The complaint about a source without a graph. -/
def missingGraph : Diagnostic where
  code := some .badHeader
  message := "missing digraph"
  labels := [.primary (.point 0) "expected `digraph \x7b ... \x7d`"]

/-- The complaint about a body without a closing brace. -/
def unclosedBody (openedAt : Nat) : Diagnostic where
  code := some .unclosedDelimiter
  message := "unclosed graph body"
  labels := [.primary (.ofRange openedAt (openedAt + 1)) "opened here"]

/-- The complaint about a second graph or anything else behind the first. -/
def contentAfterGraph (span : Span) : Diagnostic where
  code := some .unexpectedToken
  message := "unexpected content after the graph"
  labels := [.primary span "only one graph is read"]

/-- What stands between the braces of a graph; the last closing brace ends it. -/
def graphBody (graph : Statement) : Except Diagnostic Statement :=
  match header graph.cursor with
  | .error stop => .error { graph.diagnose stop with code := some .badHeader }
  | .ok ((), inside) =>
    match Text.breakAtLast? '}' inside.rest with
    | none => .error (unclosedBody (inside.pos - 1))
    | some (body, after) =>
      let behind : Statement := ⟨after, inside.pos + byteSize body + 1⟩
      if behind.trim.text.isEmpty then .ok ⟨body, inside.pos⟩
      else .error (contentAfterGraph behind.trim.span)

/-- Reads a source up to the point where its references are resolved. -/
def draft (source : List Char) : Except Diagnostic Draft := do
  let visible ← conventions.hideComments 0 source
  match ← conventions.statements 0 visible with
  | [] => .error missingGraph
  | graph :: extra =>
    let body ← graphBody graph
    let statements ← conventions.statements body.offset body.text
    let start : Progress :=
      { draft := extra.foldl (fun d s => d.report (contentAfterGraph s.span)) {} }
    return (statements.foldl Progress.readStatement start).draft

/-- Reads a DOT graph. -/
def read (source : String) : Except ParseError Diagram :=
  match draft source.toList with
  | .ok d => d.resolve source.toList
  | .error problem => .error (.single source.toList problem)

end Flowchart.Dot
