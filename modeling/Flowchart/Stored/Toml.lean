import Flowchart.Stored.Value
import Flowchart.Text.Basic
import Flowchart.Text.Numeral

/-!
# A reader of simple TOML documents

A stand-in for a full reader, which is enough for settings as they are usually written: a line is
blank, a comment after `#`, a `[table]` header, or `key = value` with a quoted text, `true` or
`false`. **A table or key that occurs twice is an error**, and so is a control character anywhere,
comments included. Everything else that TOML has is refused here; no command relies on that, for what
reads the settings is up to the `Host`.
-/

namespace Flowchart.Toml

/-- Blanks inside a line. -/
def isSpace (c : Char) : Bool := c = ' ' || c = '\t'

/-- Characters of a bare key. -/
def isKeyChar (c : Char) : Bool := c.isAlphanum || c = '_' || c = '-'

/-- What stands in a line. -/
inductive Line where
  | blank
  | header (name : String)
  | entry (key : String) (value : StoredValue)

/-- The character of an escape with one letter. -/
def unescape? : Char → Option Char
  | '"' => some '"'
  | '\\' => some '\\'
  | 'b' => some '\x08'
  | 'e' => some '\x1b'
  | 't' => some '\t'
  | 'n' => some '\n'
  | 'f' => some '\x0c'
  | 'r' => some '\r'
  | _ => none

/-- The character of a fixed number of hexadecimal digits, which have no sign. -/
def codePoint? (digits : List Char) (length : Nat) : Option Char :=
  if digits.length = length && digits.all fun c => (Text.hexDigit? c).isSome then
    (Text.hexadecimal? digits).bind Text.charOfCode?
  else none

/-- A control character other than the tab. -/
def isControl (c : Char) : Bool := (c.toNat < 0x20 && c ≠ '\t') || c.toNat = 0x7F

/-- Reads a quoted text up to its closing quote. -/
def quotedTail? : List Char → Option (List Char × List Char)
  | [] => none
  | '"' :: rest => some ([], rest)
  | '\\' :: 'x' :: a :: b :: rest => do
    let decoded ← codePoint? [a, b] 2
    let (content, after) ← quotedTail? rest
    return (decoded :: content, after)
  | '\\' :: 'u' :: a :: b :: c :: d :: rest => do
    let decoded ← codePoint? [a, b, c, d] 4
    let (content, after) ← quotedTail? rest
    return (decoded :: content, after)
  | '\\' :: 'U' :: a :: b :: c :: d :: e :: f :: g :: h :: rest => do
    let decoded ← codePoint? [a, b, c, d, e, f, g, h] 8
    let (content, after) ← quotedTail? rest
    return (decoded :: content, after)
  | '\\' :: c :: rest => do
    let decoded ← unescape? c
    let (content, after) ← quotedTail? rest
    return (decoded :: content, after)
  | c :: rest =>
    if isControl c || c = '\\' then none
    else (quotedTail? rest).map fun found => (c :: found.1, found.2)

/-- Reads a key: a bare one, or a quoted one. -/
def key? : List Char → Option (String × List Char)
  | '"' :: rest => (quotedTail? rest).map fun found => (String.ofList found.1, found.2)
  | cs =>
    let name := cs.takeWhile isKeyChar
    if name.isEmpty then none else some (String.ofList name, cs.dropWhile isKeyChar)

/-- Reads a value. -/
def value? : List Char → Option (StoredValue × List Char)
  | '"' :: rest =>
    (quotedTail? rest).map fun found => (.text (String.ofList found.1), found.2)
  | cs =>
    let word := cs.takeWhile Char.isAlpha
    let rest := cs.dropWhile Char.isAlpha
    if word = "true".toList then some (.bool true, rest)
    else if word = "false".toList then some (.bool false, rest)
    else none

/-- Nothing but blanks and a comment is left. -/
def isDone (cs : List Char) : Bool :=
  match cs.dropWhile isSpace with
  | [] => true
  | '#' :: comment => !comment.any isControl
  | _ => false

/-- Reads a line. -/
def line? (cs : List Char) : Option Line :=
  if isDone cs then some .blank
  else match cs.dropWhile isSpace with
  | '[' :: rest => do
    let (name, rest) ← key? (rest.dropWhile isSpace)
    let rest ← [']'].isPrefixOf? (rest.dropWhile isSpace)
    if isDone rest then some (.header name) else none
  | cs => do
    let (key, rest) ← key? cs
    let rest ← ['='].isPrefixOf? (rest.dropWhile isSpace)
    let (value, rest) ← value? (rest.dropWhile isSpace)
    if isDone rest then some (.entry key value) else none

/-- A table of entries in their order. -/
abbrev Entries := List (String × StoredValue)

/-- Adds an entry whose key must be new. -/
def add? (entries : Entries) (key : String) (value : StoredValue) : Option Entries :=
  if entries.any fun entry => entry.1 == key then none else some (entries ++ [(key, value)])

/-- Reads the lines of a file: `done` holds what stands before the open table, and `table?` the open
table with its name. -/
def entries? (done : Entries) (table? : Option (String × Entries)) : List Line → Option Entries
  | [] => close?
  | .blank :: rest => entries? done table? rest
  | .header name :: rest => do
    let done ← close?
    entries? done (some (name, [])) rest
  | .entry key value :: rest =>
    match table? with
    | none => do
      let done ← add? done key value
      entries? done none rest
    | some (name, table) => do
      let table ← add? table key value
      entries? done (some (name, table)) rest
where
  /-- What is done once the open table is closed. -/
  close? : Option Entries :=
    match table? with
    | none => some done
    | some (name, table) => add? done name (.table table)

/-- A line without the carriage return at its end. -/
def withoutReturn (cs : List Char) : List Char :=
  if cs.getLast? = some '\r' then cs.dropLast else cs

/-- The lines of a text. Each ends with a line feed, which a carriage return may stand before; the
last one ends with the text. -/
def lines (cs : List Char) : List (List Char) :=
  let pieces := cs.splitOn '\n'
  pieces.dropLast.map withoutReturn ++ pieces.getLast?.toList

/-- A text without the mark of its byte order in front. -/
def withoutMark : List Char → List Char
  | '\ufeff' :: rest => rest
  | cs => cs

/-- Reads a simple document. -/
def read? (source : String) : Option StoredValue := do
  let lines ← (lines (withoutMark source.toList)).mapM line?
  let entries ← entries? [] none lines
  return .table entries

/-- The reader of simple documents. -/
def reader : TomlReader := ⟨read?, rfl⟩

end Flowchart.Toml
