import Flowchart.Source.Statement
import Flowchart.Text.Quoted

/-!
# Readers of a statement

A reader takes a cursor, that is an offset and the text from there on, and either returns a value
and the cursor behind it or stops. There are two ways to stop:

* something else was `expected` at the place of the stop; an alternative may then be tried from
  where the reader began;
* a construct was recognised but is faulty. **A fault is final:** no alternative is tried.

`Statement.read` runs a reader over a whole statement and turns a stop into a diagnostic.
-/

namespace Flowchart

open Text (byteSize isBlank isWordChar sameLetters)

/-- The text that is left to read, with the offset where it starts. -/
structure Cursor where
  pos : Nat
  rest : List Char
  deriving DecidableEq, Repr

namespace Cursor

/-- The cursor behind `taken`, which `rest` follows. -/
def after (c : Cursor) (taken rest : List Char) : Cursor := ⟨c.pos + byteSize taken, rest⟩

/-- The cursor at a later part of its text. -/
def moveTo (c : Cursor) (rest : List Char) : Cursor :=
  ⟨c.pos + (byteSize c.rest - byteSize rest), rest⟩

end Cursor

/-- What is wrong with a construct that was recognised. -/
structure Fault where
  code : ErrorCode
  message : String
  help : Option String := none
  deriving DecidableEq, Repr

/-- Why a reader stopped, and where. A fault also knows where its construct began. -/
inductive Stop where
  | expected (names : List String) (place : Cursor)
  | fault (fault : Fault) (start : Nat) (place : Cursor)
  deriving DecidableEq, Repr

/-- A reader of a value. -/
abbrev Reader (α : Type) := StateT Cursor (Except Stop) α

namespace Reader

variable {α β : Type}

/-! ## Stopping -/

/-- Stops because something else is expected here. -/
def expected (name : String) : Reader α := fun c => .error (.expected [name] c)

/-- Stops because the construct that began at `start` is faulty. -/
def fault (f : Fault) (start : Nat) : Reader α := fun c => .error (.fault f start c)

/-- Adds the name of what is being read to an expectation. -/
def named (name : String) (r : Reader α) : Reader α := fun c =>
  match r c with
  | .error (.expected names place) => .error (.expected (names ++ [name]) place)
  | result => result

/-! ## Alternatives -/

/-- Tries a reader; if it expected something else, nothing is read. -/
def optional (r : Reader α) : Reader (Option α) := fun c =>
  match r c with
  | .ok (a, rest) => .ok (some a, rest)
  | .error (.expected ..) => .ok (none, c)
  | .error stop => .error stop

/-- Tries the first reader and, if it expected something else, the second from the same place. -/
def or (first second : Reader α) : Reader α := fun c =>
  match first c with
  | .error (.expected ..) => second c
  | result => result

/-! ## Characters and marks -/

/-- The cursor itself. -/
def cursor : Reader Cursor := fun c => .ok (c, c)

/-- Goes on at a later part of the text. -/
def moveTo (rest : List Char) : Reader Unit := fun c => .ok ((), c.moveTo rest)

/-- The offset of the cursor. -/
def position : Reader Nat := fun c => .ok (c.pos, c)

/-- Nothing is left. -/
def atEnd : Reader Bool := fun c => .ok (c.rest.isEmpty, c)

/-- The text starts with `mark`. -/
def lookingAt (mark : List Char) : Reader Bool := fun c => .ok (mark.isPrefixOf c.rest, c)

/-- Reads `mark` if the text starts with it. -/
def accept (mark : List Char) : Reader Bool := fun c =>
  match mark.isPrefixOf? c.rest with
  | some rest => .ok (true, c.after mark rest)
  | none => .ok (false, c)

/-- Reads the longest run of characters of a class. -/
def takeWhile (p : Char → Bool) : Reader (List Char) := fun c =>
  let taken := c.rest.takeWhile p
  .ok (taken, c.after taken (c.rest.dropWhile p))

/-- Reads a run of at least `least` characters of a class. -/
def takeAtLeast (least : Nat) (p : Char → Bool) : Reader (List Char) := fun c =>
  let taken := c.rest.takeWhile p
  if taken.length < least then .error (.expected [] c)
  else .ok (taken, c.after taken (c.rest.dropWhile p))

/-- Reads everything. -/
def takeAll : Reader (List Char) := fun c => .ok (c.rest, c.after c.rest [])

/-- Reads blanks, if there are any. -/
def blanks : Reader Unit := do let _ ← takeWhile isBlank

/-- Reads at least one blank. -/
def someBlanks : Reader Unit := do let _ ← named "whitespace" (takeAtLeast 1 isBlank)

/-- Reads a word of letters, numerals and underscores. -/
def identifier : Reader (List Char) := named "identifier" (takeAtLeast 1 isWordChar)

/-- Reads a whole word that equals `word` up to ASCII case. -/
def keyword (word : String) : Reader (List Char) := named word fun c =>
  let taken := c.rest.takeWhile isWordChar
  if !taken.isEmpty && sameLetters taken word.toList then
    .ok (taken, c.after taken (c.rest.dropWhile isWordChar))
  else .error (.expected [] c)

/-- Notes the place of what is read. -/
def spanned (r : Reader α) : Reader (Spanned α) := do
  let start ← position
  let value ← r
  let stop ← position
  return ⟨value, .ofRange start stop⟩

/-! ## Strings -/

/-- A string without a closing quote. -/
def unterminatedString : Fault where
  code := .unterminatedString
  message := "unterminated string literal"
  help := some "add closing `\"`"

/-- Reads a double-quoted string in which no character is special, up to the next quote. -/
def rawString : Reader (List Char) := fun c =>
  match c.rest with
  | '"' :: rest =>
    match Text.breakAt? ['"'] rest with
    | some (content, after) => .ok (content, c.moveTo after)
    | none => .error (.fault unterminatedString c.pos c)
  | _ => .error (.expected ["quoted string"] c)

/-- Reads a double-quoted string with backslash escapes. -/
def escapedString : Reader (List Char) := fun c =>
  match c.rest with
  | '"' :: rest =>
    match Text.Quoted.decodeTail? rest with
    | some (content, after) => .ok (content, c.moveTo after)
    | none => .error (.fault unterminatedString c.pos (c.moveTo []))
  | _ => .error (.expected ["quoted string"] c)

end Reader

/-! ## Reading a whole statement -/

namespace Statement

/-- The cursor at the start of a statement. -/
def cursor (s : Statement) : Cursor := ⟨s.offset, s.text⟩

/-- Turns a stop into a diagnostic. A fault is marked from the start of its construct to the place
of the stop; an expectation at the character found instead or, at the end, on the whole
statement. -/
def diagnose (s : Statement) : Stop → Diagnostic
  | .fault f start place =>
    let left := min start place.pos
    let right := max (min (max place.pos (left + 1)) (s.offset + byteSize s.text)) left
    { code := some f.code
      message := f.message
      labels := [.primary (.ofRange left right) f.code.description]
      help := f.help }
  | .expected names place =>
    let expectation :=
      if names.isEmpty then "a valid statement" else " or ".intercalate names
    match place.rest with
    | found :: _ =>
      { code := some .unexpectedToken
        message := s!"unexpected `{found}`, expected {expectation}"
        labels := [.primary (.ofRange place.pos (place.pos + found.utf8Size))
          s!"expected {expectation}"] }
    | [] =>
      { code := some .incompleteInput
        message := s!"incomplete statement, expected {expectation}"
        labels := [.primary s.span ErrorCode.incompleteInput.description] }

/-- Runs a reader over the whole statement, closing blanks allowed. -/
def read {α : Type} (s : Statement) (r : Reader α) : Except Diagnostic α :=
  let whole : Reader α := do
    let value ← r
    Reader.blanks
    if ← Reader.atEnd then return value else Reader.expected "end of statement"
  match whole s.cursor with
  | .ok (value, _) => .ok value
  | .error stop => .error (s.diagnose stop)

end Statement

end Flowchart
