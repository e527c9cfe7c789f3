import Flowchart.D2.Notation
import Flowchart.Source.Draft
import Flowchart.Source.Reader

/-!
# Reading D2

A statement declares a shape or a chain of connections, each with an optional label and an optional
map of entries. Nested maps are flattened into dotted keys. The entries `shape` and `label` of a
shape give its type and label, the others are its attributes; the style entries of a connection give
its type. Containers and the special sections of D2 are refused.
-/

namespace Flowchart.D2

open Text (isBlank lower trim trimEnd)

/-! ## Parts of a statement -/

/-- A key with its place. A bare key may have to be refused where a quoted one is fine. -/
structure Key where
  name : String
  quoted : Bool
  span : Span
  deriving DecidableEq, Repr

/-- An entry of a map, with its dotted key. -/
structure Entry where
  key : String
  value : String
  deriving DecidableEq, Repr

/-- A key, further keys each behind an arrow, a label and a map. The flag of a further key says that
its arrow points back. -/
structure Declaration where
  first : Key
  links : List (Bool × Key)
  label : Option String
  entries : List Entry

/-- The value of the first entry with this key. -/
def Declaration.entry? (d : Declaration) (key : String) : Option String :=
  (d.entries.find? fun e => e.key = key).map Entry.value

/-- The label in front of the map, or else the one in it. -/
def Declaration.label? (d : Declaration) : Option String :=
  match d.label with
  | some label => some label
  | none => d.entry? "label"

/-- A connection without a direction, or with both. -/
def undirected : Fault where
  code := .unexpectedToken
  message := "undirected connections are not supported"
  help := some "use `->` or `<-`"

/-- A map whose closing brace is missing. -/
def unclosedMap : Fault where
  code := .unclosedDelimiter
  message := "unclosed map"
  help := some "add the closing `\x7d`"

/-- A shape or connection inside a map. -/
def nestedDeclaration : Fault where
  code := .unrecognizedStatement
  message := "nested declarations are not supported"
  help := some "move the shape or connection to the top level"

/-- A bare key ends here. -/
def endsKey (cs : List Char) : Bool :=
  cs.head?.any [':', ';', '{', '}', '"', '\n'].contains || ['-', '>'].isPrefixOf cs ||
    ['<', '-'].isPrefixOf cs || ['-', '-'].isPrefixOf cs

/-- The longest text in front of what ends a bare key. -/
def bareKey : List Char → List Char
  | [] => []
  | c :: cs => if endsKey (c :: cs) then [] else c :: bareKey cs

/-- Reads a quoted key, or a bare one without the blanks behind it. -/
def key : Reader Key := do
  if ← Reader.lookingAt ['"'] then
    let name ← Reader.spanned Reader.escapedString
    return ⟨String.ofList name.value, true, name.span⟩
  else
    let c ← Reader.cursor
    let raw := trimEnd (bareKey c.rest)
    if raw.isEmpty then Reader.expected "key"
    else
      Reader.moveTo (c.rest.drop raw.length)
      let stop ← Reader.position
      return ⟨String.ofList raw, false, .ofRange c.pos stop⟩

/-- Reads a quoted value, or a bare one up to the end of the entry. -/
def value : Reader String := do
  if ← Reader.lookingAt ['"'] then
    let text ← Reader.escapedString
    return String.ofList text
  else
    let text ← Reader.takeWhile fun c => !(c = ';' || c = '\n' || c = '{' || c = '}')
    return String.ofList (trim text)

/-- Reads the entries of a map up to its closing brace. The map was opened at `start`, and its keys
stand below `path`. -/
def entries : (fuel : Nat) → (path : Option String) → (start : Nat) → Reader (List Entry)
  | 0, _, _ => return []
  | fuel + 1, path, start => do
    let _ ← Reader.takeWhile fun c => isBlank c || c = ';'
    if ← Reader.accept ['}'] then return []
    else if ← Reader.atEnd then Reader.fault unclosedMap start
    else
      let entryStart ← Reader.position
      let name ← Reader.named "map key" key
      let _ ← Reader.takeWhile fun c => c = ' ' || c = '\t'
      if ← Reader.accept [':'] then
        let _ ← Reader.takeWhile fun c => c = ' ' || c = '\t'
        let fullKey := match path with
          | some path => s!"{path}.{name.name}"
          | none => name.name
        let mapStart ← Reader.position
        if ← Reader.accept ['{'] then
          let inner ← entries fuel (if fullKey = "" then none else some fullKey) mapStart
          let rest ← entries fuel path start
          return inner ++ rest
        else
          let value ← value
          let rest ← entries fuel path start
          return ⟨fullKey, value⟩ :: rest
      else Reader.fault nestedDeclaration entryStart

/-- Reads arrows, each with the key behind it. The flag says that the arrow points back. -/
def links : (fuel : Nat) → Reader (List (Bool × Key))
  | 0 => return []
  | fuel + 1 => do
    Reader.blanks
    let start ← Reader.position
    if ← Reader.accept ['<', '-', '>'] then Reader.fault undirected start
    else if ← Reader.accept ['-', '>'] then linkTo fuel false
    else if ← Reader.accept ['<', '-'] then linkTo fuel true
    else if ← Reader.accept ['-', '-'] then Reader.fault undirected start
    else return []
where
  /-- Reads the key behind an arrow, and the arrows that follow. -/
  linkTo (fuel : Nat) (back : Bool) : Reader (List (Bool × Key)) := do
    Reader.blanks
    let next ← Reader.named "key" key
    let rest ← links fuel
    return (back, next) :: rest

/-- Reads what may follow a colon: a label and a map. -/
def body : Reader (Option String × List Entry) := do
  Reader.blanks
  let label ←
    if ← Reader.lookingAt ['{'] then pure none
    else
      let label ← value
      Reader.blanks
      pure (some label)
  let c ← Reader.cursor
  if ← Reader.accept ['{'] then
    let map ← entries c.rest.length none c.pos
    return (label, map)
  else return (label, [])

/-- Reads a whole declaration. -/
def declaration : Reader Declaration := do
  let first ← Reader.named "key" key
  let c ← Reader.cursor
  let links ← links (c.rest.length + 1)
  if ← Reader.accept [':'] then
    let (label, map) ← body
    return ⟨first, links, label, map⟩
  else return ⟨first, links, none, []⟩

/-! ## Statements -/

/-- The complaint about a part of D2 that a flowchart cannot hold. -/
def unsupported (s : Statement) (what : String) : Diagnostic where
  code := some .unrecognizedStatement
  message := s!"`{what}` is not supported"
  labels := [.primary s.span ErrorCode.unrecognizedStatement.description]
  help := some "only shapes and connections are read"

/-- The complaint about a direction that is none. -/
def unknownDirection (s : Statement) (value : String) : Diagnostic where
  code := some .unexpectedToken
  message := s!"unknown direction `{value}`"
  labels := [.primary s.span "expected up, down, left or right"]

/-- The complaint about a bare key with a dot in it. -/
def containerPath (key : Key) : Diagnostic where
  code := some .unrecognizedStatement
  message := "containers are not supported"
  labels := [.primary key.span "container path"]
  help := some "quote the key to use a dot inside an id"

/-- The key names a node inside a container. -/
def isContainerPath (key : Key) : Bool := !key.quoted && key.name.toList.contains '.'

/-- Adds the edges of a chain, all with the same label and type, up to the first key that names a
node inside a container. -/
def connectAll (d : Draft) (label : Option String) (type : EdgeType) (previous : Key) :
    List (Bool × Key) → Draft
  | [] => d
  | (back, next) :: rest =>
    if isContainerPath previous then d.report (containerPath previous)
    else if isContainerPath next then d.report (containerPath next)
    else
      let (source, target) := if back then (next, previous) else (previous, next)
      let edge : Edge := { source := source.name, target := target.name, label, type }
      connectAll (d.connect edge source.span target.span) label type next rest

/-- The edge type that the entries of a connection give. -/
def edgeType (entries : List Entry) : EdgeType :=
  (entries.findSome? fun e => ofStyle? e.key e.value).getD .plain

/-- The node that a declaration without arrows declares. -/
def node (decl : Declaration) : Node :=
  let type := match decl.entry? "shape" with
    | some shape => (ofShape? shape).getD .process
    | none => .unspecified
  let others := decl.entries.filter fun e => e.key ≠ "shape" && e.key ≠ "label"
  let plain : Node := { id := decl.first.name, label := decl.label?.getD decl.first.name, type }
  plain.withAttributes (others.map fun e => (e.key, e.value))

/-- Adds a declaration without arrows: the direction, the title, or a node. -/
def addShape (d : Draft) (s : Statement) (decl : Declaration) : Draft :=
  let key := decl.first
  let name := if key.quoted then "" else key.name.toLower
  if name = "direction" && decl.entries.isEmpty then
    let value := decl.label.getD ""
    match ofDirection? value with
    | some direction => d.setDirection direction
    | none => d.report (unknownDirection s value)
  else if name = "title" && (decl.entry? "near").isSome then d.setTitle (decl.label?.getD "")
  else if unsupportedKeys.contains name then d.report (unsupported s key.name)
  else if isContainerPath key then d.report (containerPath key)
  else d.declare (node decl) key.span

/-- Reads one statement into the draft. -/
def readStatement (d : Draft) (s : Statement) : Draft :=
  if ['('].isPrefixOf s.text then d.report (unsupported s "connection references")
  else
    match s.read declaration with
    | .error problem => d.report problem
    | .ok decl =>
      match decl.links with
      | [] => addShape d s decl
      | links => connectAll d decl.label? (edgeType decl.entries) decl.first links

/-! ## Sources -/

/-- Reads a source up to the point where its references are resolved. -/
def draft (source : List Char) : Except Diagnostic Draft := do
  let visible ← conventions.hideComments 0 source
  let statements ← conventions.statements 0 visible
  return statements.foldl readStatement {}

/-- Reads a D2 diagram. -/
def read (source : String) : Except ParseError Diagram :=
  match draft source.toList with
  | .ok d => d.resolve source.toList
  | .error problem => .error (.single source.toList problem)

end Flowchart.D2
