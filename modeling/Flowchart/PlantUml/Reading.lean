import Flowchart.PlantUml.Label
import Flowchart.PlantUml.Notation
import Flowchart.Source.Draft
import Flowchart.Source.Reader

/-!
# Reading PlantUML

A source is what stands between `@startuml` and `@enduml`, one statement a line: a title, a
direction, element declarations and arrows. Layout statements are skipped. A line that starts with
an element keyword but is no declaration may still be an arrow from a node of that id.
-/

namespace Flowchart.PlantUml

open Text (byteSize firstWord lower sameLetters trim)

/-! ## Elements -/

/-- An element declaration. -/
structure Element where
  keyword : List Char
  id : Spanned (List Char)
  label : Option (List Char)
  stereotype : Option (List Char)

/-- A stereotype whose closing brackets are missing. -/
def unclosedStereotype : Fault where
  code := .unclosedDelimiter
  message := "unclosed stereotype"
  help := some "close the stereotype with `>>`"

/-- Reads the word `as` between blanks. -/
def asWord : Reader Unit := do
  Reader.someBlanks
  let _ ← Reader.keyword "as"
  Reader.someBlanks

/-- Reads the id of an element. -/
def elementId : Reader (Spanned (List Char)) :=
  Reader.spanned (Reader.named "element id" Reader.identifier)

/-- Reads a stereotype and trims it. -/
def stereotype : Reader (List Char) := do
  let start ← Reader.cursor
  match ['<', '<'].isPrefixOf? start.rest with
  | none => Reader.expected "stereotype"
  | some body =>
    match Text.breakAt? ['>', '>'] body with
    | some (name, after) =>
      Reader.moveTo after
      return trim name
    | none => Reader.fault unclosedStereotype start.pos

/-- Reads a label in quotes followed by an id, or an id that a label in quotes may follow. -/
def idAndLabel : Reader (Spanned (List Char) × Option (List Char)) := do
  if ← Reader.lookingAt ['"'] then
    let label ← Reader.rawString
    asWord
    let id ← elementId
    return (id, some label)
  else
    let id ← elementId
    let label ← Reader.optional do
      asWord
      Reader.rawString
    return (id, label)

/-- Reads a color such as `#LightBlue`, which has no meaning for the graph. -/
def color : Reader Unit := do
  if ← Reader.accept ['#'] then let _ ← Reader.identifier
  else Reader.expected "color"

/-- Reads an element declaration. -/
def elementDeclaration : Reader Element := do
  let keyword ← Reader.named "element keyword" Reader.identifier
  Reader.someBlanks
  let (id, label) ← idAndLabel
  Reader.blanks
  let stereotype ← Reader.optional stereotype
  Reader.blanks
  let _ ← Reader.optional color
  return ⟨keyword, id, label, stereotype⟩

/-! ## Arrows -/

/-- An arrow statement; source and target are told apart by the heads of the arrow. -/
structure ArrowStatement where
  source : Spanned (List Char)
  target : Spanned (List Char)
  type : EdgeType
  label : Option String

/-- Where the scan of an arrow stands: between strokes, inside square brackets, or inside a word
such as `up`. -/
inductive ArrowPart where
  | strokes (afterDash : Bool)
  | brackets
  | word
  deriving DecidableEq, Repr

/-- The longest run of strokes, heads, styles in square brackets and direction words between
dashes. -/
def arrowRun : ArrowPart → List Char → List Char
  | _, [] => []
  | .brackets, c :: cs => c :: arrowRun (if c = ']' then .strokes false else .brackets) cs
  | part, c :: cs =>
    if c = '-' || c = '.' || c = '<' || c = '>' || c = '*' || c = '|' then
      c :: arrowRun (.strokes (c = '-')) cs
    else if c = '[' && cs.contains ']' then c :: arrowRun .brackets cs
    else if c.isAlpha then
      match part with
      | .word => c :: arrowRun .word cs
      | .strokes true =>
        if (cs.dropWhile Char.isAlpha).head? = some '-' then c :: arrowRun .word cs else []
      | _ => []
    else []

/-- Reads an arrow; it has a dash or a dot at least. -/
def arrowToken : Reader (List Char) := do
  let c ← Reader.cursor
  let token := arrowRun (.strokes false) c.rest
  if token.contains '-' || token.contains '.' then
    Reader.moveTo (c.rest.drop token.length)
    return token
  else Reader.expected "arrow"

/-- An arrow with heads on both sides. -/
def unknownArrow : Fault where
  code := .unexpectedToken
  message := "unknown arrow"
  help := some "use `-->`, `-[bold]->` or `..>`"

/-- Reads the id of a node. -/
def nodeId : Reader (Spanned (List Char)) :=
  Reader.spanned (Reader.named "node id" Reader.identifier)

/-- Reads a colon and the label behind it. An empty label is none. -/
def arrowLabel : Reader (Option String) := do
  if ← Reader.accept [':'] then
    let text ← Reader.takeAll
    let label := Label.decode (trim text)
    return if label.isEmpty then none else some (String.ofList label)
  else return none

/-- Reads an arrow statement. -/
def arrowStatement : Reader ArrowStatement := do
  let first ← nodeId
  Reader.blanks
  let start ← Reader.position
  let token ← Reader.named "arrow" arrowToken
  match readArrow? token with
  | none => Reader.fault unknownArrow start
  | some (type, leftwards) =>
    Reader.blanks
    let second ← nodeId
    Reader.blanks
    let label ← arrowLabel
    return if leftwards then ⟨second, first, type, label⟩ else ⟨first, second, type, label⟩

/-! ## Statements -/

/-- Adds a declared element. An element that stands for no node type is a process, and one without a
label is labelled with its id. -/
def addElement (d : Draft) (e : Element) : Draft :=
  let id := String.ofList e.id.value
  let type := (ofElement? e.keyword e.stereotype).getD .process
  let label := match e.label with
    | some label => String.ofList (Label.decode label)
    | none => id
  d.declare { id, label, type } e.id.span

/-- Adds an arrow. -/
def addArrow (d : Draft) (a : ArrowStatement) : Draft :=
  let edge : Edge :=
    { source := String.ofList a.source.value, target := String.ofList a.target.value,
      label := a.label, type := a.type }
  d.connect edge a.source.span a.target.span

/-- The complaint about a statement that a flowchart cannot hold. -/
def unsupported (s : Statement) (word : List Char) : Diagnostic where
  code := some .unrecognizedStatement
  message := s!"`{String.ofList word}` statements are not supported"
  labels := [.primary s.span ErrorCode.unrecognizedStatement.description]
  help := some "only element declarations and arrows are read"

/-- Reads one statement into the draft. -/
def readStatement (d : Draft) (s : Statement) : Draft :=
  let word := firstWord s.text
  let name := String.ofList (lower word)
  let asArrow (elementProblem : Option Diagnostic) : Draft :=
    match s.read arrowStatement with
    | .ok arrow => addArrow d arrow
    | .error problem =>
      if unsupportedWords.contains name then d.report (unsupported s word)
      else d.report (elementProblem.getD problem)
  if name = "title" then
    d.setTitle (String.ofList (Label.decode (trim (s.text.drop word.length))))
  else
    match ofDirection? s.text with
    | some direction => d.setDirection direction
    | none =>
      if skippedWords.contains name then d
      else if word.head? = some '!' then d.report (unsupported s word)
      else if word.length < s.text.length && isElement name then
        match s.read elementDeclaration with
        | .ok element => addElement d element
        | .error problem => asArrow (some problem)
      else asArrow none

/-! ## Sources -/

/-- The complaint about a source that does not start with `@startuml`. -/
def missingStart (span : Span) : Diagnostic where
  code := some .badHeader
  message := "missing @startuml"
  labels := [.primary span "expected `@startuml`"]
  help := some "start the diagram with `@startuml`"

/-- The complaint about a source without `@enduml`. -/
def missingEnd (offset : Nat) : Diagnostic where
  code := some .missingFooter
  message := "missing @enduml"
  labels := [.primary (.point offset) "diagram ends here"]
  help := some "close the diagram with `@enduml`"

/-- The complaint about a statement behind `@enduml`. -/
def contentAfterEnd (s : Statement) : Diagnostic where
  code := some .unexpectedToken
  message := "unexpected content after @enduml"
  labels := [.primary s.span "after the end of the diagram"]

/-- The statement starts with this word, up to ASCII case. -/
def startsWithWord (word : String) (s : Statement) : Bool :=
  sameLetters word.toList (firstWord s.text)

/-- Reads statements up to `@enduml`, behind which nothing may follow. -/
def readStatements (sourceEnd : Nat) (d : Draft) : List Statement → Draft
  | [] => d.report (missingEnd sourceEnd)
  | s :: rest =>
    if startsWithWord "@enduml" s then
      match rest with
      | [] => d
      | extra :: _ => d.report (contentAfterEnd extra)
    else readStatements sourceEnd (readStatement d s) rest

/-- Reads a source up to the point where its references are resolved. -/
def draft (source : List Char) : Except Diagnostic Draft := do
  let visible ← conventions.hideComments 0 source
  match ← conventions.statements 0 visible with
  | [] => .error (missingStart (.point 0))
  | first :: rest =>
    if startsWithWord "@startuml" first then
      return readStatements (byteSize source) {} rest
    else .error (missingStart first.span)

/-- Reads a PlantUML diagram. -/
def read (source : String) : Except ParseError Diagram :=
  match draft source.toList with
  | .ok d => d.resolve source.toList
  | .error problem => .error (.single source.toList problem)

end Flowchart.PlantUml
