import Flowchart.Source.Diagnostic
import Flowchart.Vocabulary.Format

/-!
# Drafts of diagrams

A source may use a node before it declares it. Readers therefore collect what the statements say in
a draft and resolve it once at the end. **The order of declarations and uses does not matter**, and
every undeclared and doubly declared node is reported, not just the first.
-/

namespace Flowchart

/-- An edge with the places where its ends are named. -/
structure DraftEdge where
  edge : Edge
  sourceSpan : Span
  targetSpan : Span
  deriving DecidableEq, Repr

/-- Attributes for a node that is declared somewhere in the source. -/
structure DraftStyle where
  id : Spanned String
  attributes : List (String × String)
  deriving DecidableEq, Repr

/-- What has been read of a diagram so far. -/
structure Draft where
  nodes : List (Node × Span) := []
  edges : List DraftEdge := []
  styles : List DraftStyle := []
  title : Option String := none
  direction : Option Direction := none
  problems : List Diagnostic := []

namespace Draft

/-! ## Collecting -/

/-- Reports a problem. -/
def report (d : Draft) (problem : Diagnostic) : Draft :=
  { d with problems := d.problems ++ [problem] }

/-- The complaint about an empty id. -/
def emptyId (span : Span) : Diagnostic where
  code := some .unexpectedToken
  message := "node id must not be empty"
  labels := [.primary span "empty id"]

/-- The complaint about a second declaration. -/
def duplicate (id : String) (span first : Span) : Diagnostic where
  code := some .duplicateNode
  message := s!"node `{id}` is declared multiple times"
  labels := [.primary span "duplicate declaration", .secondary first "first declared here"]
  help := some "remove the duplicate or use a different id"

/-- The complaint about a node that is never declared. -/
def undeclared (id : String) (span : Span) : Diagnostic where
  code := some .undeclaredNode
  message := s!"node `{id}` is not declared"
  labels := [.primary span "not declared"]
  help := some "declare the node before or after this reference"

/-- The declaration of an id. -/
def declaration? (d : Draft) (id : String) : Option (Node × Span) :=
  Keyed.find? (fun p => p.1.id) id d.nodes

/-- Declares a node. The first declaration of an id counts, a second is a problem. -/
def declare (d : Draft) (node : Node) (span : Span) : Draft :=
  if node.id = "" then d.report (emptyId span)
  else
    match d.declaration? node.id with
    | some (_, first) => d.report (duplicate node.id span first)
    | none => { d with nodes := d.nodes ++ [(node, span)] }

/-- Records an edge; its ends are looked up at the end. -/
def connect (d : Draft) (edge : Edge) (sourceSpan targetSpan : Span) : Draft :=
  { d with edges := d.edges ++ [⟨edge, sourceSpan, targetSpan⟩] }

/-- Records attributes for a node; it is looked up at the end. -/
def style (d : Draft) (id : Spanned String) (attributes : List (String × String)) : Draft :=
  { d with styles := d.styles ++ [⟨id, attributes⟩] }

/-- Sets the title. -/
def setTitle (d : Draft) (title : String) : Draft := { d with title := some title }

/-- Sets the direction. -/
def setDirection (d : Draft) (direction : Direction) : Draft :=
  { d with direction := some direction }

/-! ## Resolving -/

/-- The ends of the edges that are not declared, in order. -/
def undeclaredEnds (d : Draft) : List Diagnostic :=
  d.edges.flatMap fun e =>
    ([(e.edge.source, e.sourceSpan), (e.edge.target, e.targetSpan)].filter fun p =>
      (d.declaration? p.1).isNone).map fun p => undeclared p.1 p.2

/-- The styles of nodes that are not declared, in order. -/
def undeclaredStyles (d : Draft) : List Diagnostic :=
  (d.styles.filter fun s => (d.declaration? s.id.value).isNone).map fun s =>
    undeclared s.id.value s.id.span

/-- A node with the attributes of all its styles, in order. -/
def styled (d : Draft) (node : Node) : Node :=
  (d.styles.filter fun s => s.id.value = node.id).foldl
    (fun n s => n.withAttributes s.attributes) node

/-- The title first and then the direction, where they are known. -/
def metadata (d : Draft) : Dictionary :=
  let titled := match d.title with
    | some title => Dictionary.empty.insert Diagram.titleKey title
    | none => Dictionary.empty
  match d.direction with
  | some direction => titled.insert Diagram.directionKey direction.code
  | none => titled

/-- The diagram of a draft without problems. -/
def diagram (d : Draft) : Diagram :=
  (Diagram.ofNodes (d.nodes.map fun p => d.styled p.1) d.metadata).addEdges
    (d.edges.map DraftEdge.edge)

/-- Resolves a draft: its diagram, or every problem with its line in the source. -/
def resolve (d : Draft) (source : List Char) : Except ParseError Diagram :=
  match d.problems ++ d.undeclaredEnds ++ d.undeclaredStyles with
  | [] => .ok d.diagram
  | problems => .error ⟨problems.map (Diagnostic.locate source)⟩

end Draft

end Flowchart
