import Flowchart.Mermaid.Label
import Flowchart.Mermaid.Notation
import Flowchart.Source.Draft
import Flowchart.Source.Reader

/-!
# Reading Mermaid

A source is optional front matter, a header with an optional direction, and statements. A statement
is a chain of nodes joined by arrows or gives a node its style. An id followed by brackets declares
the node wherever it stands; a bare id declares it only as a statement of its own.
-/

namespace Flowchart.Mermaid

open Text (byteSize isBlank isWordChar trim trimStart)

/-! ## Front matter -/

/-- The offset of the body and the body. -/
abbrev Body := Statement

/-- Writes each pair of single quotes as one. -/
def singleQuotes : List Char → List Char
  | '\'' :: '\'' :: rest => '\'' :: singleQuotes rest
  | c :: rest => c :: singleQuotes rest
  | [] => []

/-- The content of a text in single quotes. -/
def singleQuoted? : List Char → Option (List Char)
  | '\'' :: rest => if rest.getLast? = some '\'' then some (singleQuotes rest.dropLast) else none
  | _ => none

/-- The value of a front matter entry: a string in double or single quotes, or the text itself. -/
def frontMatterValue (value : List Char) : List Char :=
  match Text.Quoted.decode? value with
  | some (decoded, _) => decoded
  | none => (singleQuoted? value).getD value

/-- Looks for the line that closes the front matter and picks up the title on the way: the title and
the body behind that line. -/
def closeFrontMatter? (title? : Option String) (offset : Nat) :
    List (List Char) → Option (Option String × Body)
  | [] => none
  | line :: rest =>
    let next := offset + byteSize line
    let content := trim line
    if content = "---".toList then some (title?, ⟨rest.flatten, next⟩)
    else
      match "title:".toList.isPrefixOf? content with
      | some value =>
        closeFrontMatter? (some (String.ofList (frontMatterValue (trim value)))) next rest
      | none => closeFrontMatter? title? next rest

/-- The complaint about front matter that is not closed. -/
def unterminatedFrontMatter (openedAt : Nat) : Diagnostic where
  code := some .unclosedDelimiter
  message := "unterminated front matter"
  labels := [.primary (.ofRange openedAt (openedAt + 3)) "opened here"]
  help := some "close the front matter with a `---` line"

/-- Splits a source into its title, if front matter gives one, and its body. -/
def frontMatter (source : List Char) : Except Diagnostic (Option String × Body) :=
  let trimmed := trimStart source
  let openedAt := byteSize source - byteSize trimmed
  match Text.lines trimmed with
  | [] => .ok (none, ⟨source, 0⟩)
  | first :: rest =>
    if trim first = "---".toList then
      match closeFrontMatter? none (openedAt + byteSize first) rest with
      | some found => .ok found
      | none => .error (unterminatedFrontMatter openedAt)
    else .ok (none, ⟨source, 0⟩)

/-! ## Chains -/

/-- A node as it is named in a statement. With a shape, the mention also declares it. -/
structure Endpoint where
  id : Spanned String
  shape : Option (NodeType × String)
  span : Span

/-- An arrow with its label. -/
structure Link where
  type : EdgeType
  label : Option String

/-- A node, and the further nodes that arrows lead to. -/
structure Chain where
  first : Endpoint
  rest : List (Link × Endpoint)

/-- A shape whose closing bracket is missing. -/
def unclosedShape : Fault where
  code := .unclosedDelimiter
  message := "unclosed node shape"
  help := some "close the shape with its matching bracket"

/-- An edge label whose closing bar is missing. -/
def unclosedEdgeLabel : Fault where
  code := .unclosedDelimiter
  message := "unclosed edge label"
  help := some "close the label with `|`"

/-- A run of arrow characters that is no arrow. -/
def unknownArrow : Fault where
  code := .unexpectedToken
  message := "unknown arrow"
  help := some "use `-->`, `==>` or `-.->`"

/-- The text before and after the earliest of some marks. -/
def breakAtEarliest? (marks : List (List Char)) (cs : List Char) :
    Option (List Char × List Char) :=
  marks.foldl (fun best mark =>
    match best, Text.breakAt? mark cs with
    | some b, some found => if found.1.length < b.1.length then some found else some b
    | none, found => found
    | some b, none => some b) none

/-- Reads the first of some marks that the text starts with. -/
def acceptAny : List (List Char) → Reader Bool
  | [] => return false
  | mark :: rest => do if ← Reader.accept mark then return true else acceptAny rest

/-- Reads a label and the mark that closes it. A label in quotes may hold the closing mark. -/
def closedLabel (closings : List (List Char)) (unclosed : Fault) (start : Nat) : Reader String := do
  let c ← Reader.cursor
  if ['"'].isPrefixOf (trimStart c.rest) then
    Reader.blanks
    let raw ← Reader.rawString
    Reader.blanks
    if ← acceptAny closings then return String.ofList (Label.decode raw)
    else Reader.fault unclosed start
  else
    match breakAtEarliest? closings c.rest with
    | some (raw, after) =>
      Reader.moveTo after
      return String.ofList (Label.decode (trim raw))
    | none => Reader.fault unclosed start

/-- The longest opening bracket that a text starts with. -/
def bracket? (cs : List Char) : Option Bracket :=
  brackets.find? fun b => b.opening.isPrefixOf cs

/-- Reads a shape with its label. -/
def shape : Reader (NodeType × String) := do
  let c ← Reader.cursor
  match bracket? c.rest with
  | none => Reader.expected "node shape"
  | some b =>
    let _ ← Reader.accept b.opening
    let label ← closedLabel b.closings unclosedShape c.pos
    return (b.type, label)

/-- Reads a node id and, if a bracket follows, its shape. -/
def endpoint : Reader Endpoint := do
  let mention ← Reader.spanned do
    let id ← Reader.spanned (Reader.named "node id" Reader.identifier)
    let c ← Reader.cursor
    let shape? ← match bracket? c.rest with
      | some _ => some <$> shape
      | none => pure none
    return (id, shape?)
  let (id, shape?) := mention.value
  return ⟨⟨String.ofList id.value, id.span⟩, shape?, mention.span⟩

/-- Reads a label between bars. -/
def pipeLabel? : Reader (Option String) := do
  let start ← Reader.position
  if ← Reader.accept ['|'] then some <$> closedLabel [['|']] unclosedEdgeLabel start
  else return none

/-- Reads an arrow and the label that may follow it. -/
def link : Reader Link := do
  let start ← Reader.position
  let arrow ← Reader.named "arrow" (Reader.takeAtLeast 2 isArrowChar)
  match readArrow? arrow with
  | none => Reader.fault unknownArrow start
  | some type =>
    Reader.blanks
    let label ← pipeLabel?
    return ⟨type, label⟩

/-- Reads arrows, each with the node that it leads to, up to the end of the statement. -/
def links : (fuel : Nat) → Reader (List (Link × Endpoint))
  | 0 => return []
  | fuel + 1 => do
    let c ← Reader.cursor
    if c.rest.all isBlank then return []
    else
      Reader.blanks
      let link ← link
      Reader.blanks
      let target ← endpoint
      let rest ← links fuel
      return (link, target) :: rest

/-- Reads a chain. -/
def chain : Reader Chain := do
  let first ← endpoint
  let c ← Reader.cursor
  let rest ← links c.rest.length
  return ⟨first, rest⟩

/-! ## Styles -/

/-- A style property without a key. -/
def emptyProperty : Fault where
  code := .unexpectedToken
  message := "empty style property"
  help := some "write properties as `key:value`"

/-- A style property: its key up to the first colon and its value, both trimmed. -/
def property? (entry : List Char) : Option (String × String) :=
  let key := trim (entry.takeWhile (· ≠ ':'))
  let value := trim ((entry.dropWhile (· ≠ ':')).drop 1)
  if key.isEmpty then none else some (String.ofList key, String.ofList value)

/-- Reads the word `style`, a node id and properties with commas between them. -/
def style : Reader (Spanned String × List (String × String)) := do
  let _ ← Reader.keyword "style"
  Reader.someBlanks
  let id ← Reader.spanned Reader.identifier
  Reader.someBlanks
  let start ← Reader.position
  let properties ← Reader.takeAll
  match (properties.splitOn ',').mapM property? with
  | some attributes => return (⟨String.ofList id.value, id.span⟩, attributes)
  | none => Reader.fault emptyProperty start

/-! ## Statements -/

/-- Declares the node of an endpoint with a shape. -/
def declareShaped (d : Draft) (e : Endpoint) : Draft :=
  match e.shape with
  | some (type, label) => d.declare { id := e.id.value, label, type } e.span
  | none => d

/-- Adds the edges of a chain, and the nodes that they declare on the way. -/
def connectAll (d : Draft) (previous : Endpoint) : List (Link × Endpoint) → Draft
  | [] => d
  | (link, target) :: rest =>
    let edge : Edge :=
      { source := previous.id.value, target := target.id.value, label := link.label,
        type := link.type }
    connectAll ((declareShaped d target).connect edge previous.id.span target.id.span) target rest

/-- Adds a chain. A node that is the whole statement is always declared, without brackets as a
process labelled with its id. -/
def addChain (d : Draft) (chain : Chain) : Draft :=
  let e := chain.first
  match chain.rest with
  | [] =>
    let (type, label) := e.shape.getD (.process, e.id.value)
    d.declare { id := e.id.value, label, type } e.span
  | rest => connectAll (declareShaped d e) e rest

/-- The complaint about a statement that is no part of a plain flowchart. -/
def unsupported (s : Statement) (word : List Char) : Diagnostic where
  code := some .unrecognizedStatement
  message := s!"`{String.ofList word}` statements are not supported"
  labels := [.primary s.span ErrorCode.unrecognizedStatement.description]
  help := some "remove the statement; only nodes, edges and `style` are read"

/-- Reads one statement into the draft. A statement that starts with `style` may still be a chain
that starts at a node of this id. -/
def readStatement (d : Draft) (s : Statement) : Draft :=
  let word := s.text.takeWhile isWordChar
  let standsAlone := (s.text.dropWhile isWordChar).head?.all isBlank
  let asChain (styleProblem : Option Diagnostic) : Draft :=
    match s.read chain with
    | .ok chain => addChain d chain
    | .error problem => d.report (styleProblem.getD problem)
  if standsAlone && unsupportedWords.contains (String.ofList word) then
    d.report (unsupported s word)
  else if standsAlone && word = "style".toList then
    match s.read style with
    | .ok (id, attributes) => d.style id attributes
    | .error problem => asChain (some problem)
  else asChain none

/-! ## Sources -/

/-- Reads the header: `flowchart` or `graph`, and a direction code if one follows. -/
def header : Reader (Option (Spanned (List Char))) := do
  let _ ← Reader.or (Reader.keyword "flowchart") (Reader.keyword "graph")
  Reader.optional do
    Reader.someBlanks
    Reader.spanned Reader.identifier

/-- The complaint about a source that does not start with a header. -/
def missingHeader (span : Span) : Diagnostic where
  code := some .badHeader
  message := "missing flowchart header"
  labels := [.primary span "expected `flowchart` or `graph`"]
  help := some "start the diagram with a header such as `flowchart TD`"

/-- The complaint about a direction code that is none. -/
def unknownDirection (span : Span) (u : Unsupported) : Diagnostic where
  code := some .badHeader
  message := u.message
  labels := [.primary span "unknown direction"]
  help := some "use one of TD, TB, LR, BT, RL"

/-- Reads the header into an empty draft. -/
def readHeader (s : Statement) : Except Diagnostic Draft :=
  match s.read header with
  | .error _ => .error (missingHeader s.span)
  | .ok none => .ok {}
  | .ok (some code) =>
    match Direction.read (String.ofList code.value) with
    | .ok direction => .ok { direction := some direction }
    | .error u => .error (unknownDirection code.span u)

/-- Reads the statements of a body. -/
def readStatements (source : List Char) (title? : Option String) :
    List Statement → Except Diagnostic Draft
  | [] => .error (missingHeader (.point (byteSize source)))
  | first :: rest =>
    match readHeader first with
    | .error problem => .error problem
    | .ok d => .ok (rest.foldl readStatement { d with title := title? })

/-- Reads a source up to the point where its references are resolved. -/
def draft (source : List Char) : Except Diagnostic Draft := do
  let (title?, body) ← frontMatter source
  let visible ← conventions.hideComments body.offset body.text
  let statements ← conventions.statements body.offset visible
  readStatements source title? statements

/-- Reads a Mermaid flowchart. -/
def read (source : String) : Except ParseError Diagram :=
  match draft source.toList with
  | .ok d => d.resolve source.toList
  | .error problem => .error (.single source.toList problem)

end Flowchart.Mermaid
