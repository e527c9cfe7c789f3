import Flowchart.Source.Diagnostic

/-!
# Comments and statements

Mermaid, PlantUML, D2 and DOT sources are sequences of statements that end at a line feed and, in
some notations, at a semicolon. The `Conventions` of a notation say what its comments, strings and
brackets look like. Reading a source starts with two passes:

* `hideComments` replaces every comment by blanks of the same number of bytes, so **every character
  stays at its offset**;
* `statements` cuts the text at the ends of statements, which lie outside strings and brackets, and
  trims the pieces.
-/

namespace Flowchart

open Text (byteSize isBlank)

/-- The lexical conventions of a notation. -/
structure Conventions where
  /-- What starts a comment up to the end of the line. -/
  lineComments : List (List Char) := []
  /-- What starts such a comment only as the first text of a line. -/
  lineStartComments : List (List Char) := []
  /-- What opens and closes a comment that may span lines. -/
  blockComment? : Option (List Char × List Char) := none
  /-- A semicolon ends a statement. -/
  semicolons : Bool := false
  /-- The brackets that keep a statement open, each with its closer. -/
  brackets : List (Char × Char) := []
  /-- A backslash inside a string takes its meaning from the character after it. -/
  escapes : Bool := false

namespace Conventions

/-! ## Comments -/

/-- Where the reader of comments stands. `code` and `block` count the characters of a comment mark
that are still to be hidden. -/
inductive CommentMode where
  | code (marks : Nat) (lineStart : Bool)
  | quoted (escaped : Bool)
  | line
  | block (marks : Nat) (lineStart : Bool) (openedAt : Nat)
  deriving DecidableEq, Repr

/-- A comment starts here that runs to the end of the line. -/
def startsLineComment (k : Conventions) (lineStart : Bool) (cs : List Char) : Bool :=
  k.lineComments.any (·.isPrefixOf cs) ||
    (lineStart && k.lineStartComments.any (·.isPrefixOf cs))

/-- The marks of a block comment that starts here. Two empty marks mark nothing. -/
def startsBlockComment? (k : Conventions) (cs : List Char) : Option (List Char × List Char) :=
  k.blockComment?.filter fun marks => marks.1.isPrefixOf cs && !(marks.1 ++ marks.2).isEmpty

/-- What the next character of a block comment does while `marks` characters of its opener are left.
The closer is looked for behind the opener, so an empty one ends the comment there. -/
def blockStep (closer : List Char) (marks : Nat) (lineStart : Bool) (openedAt : Nat) (c : Char)
    (cs : List Char) : CommentMode × Bool :=
  match marks with
  | 0 =>
    if closer.isPrefixOf (c :: cs) then (.code (closer.length - 1) lineStart, true)
    else (.block 0 lineStart openedAt, true)
  | left + 1 =>
    if left = 0 && closer.isEmpty then (.code 0 lineStart, true)
    else (.block left lineStart openedAt, true)

/-- What the next character does: the mode after it, and whether it belongs to a comment. -/
def commentStep (k : Conventions) (pos : Nat) (mode : CommentMode) (c : Char) (cs : List Char) :
    CommentMode × Bool :=
  match mode with
  | .block marks lineStart openedAt =>
    match k.blockComment? with
    | some (_, closer) => blockStep closer marks lineStart openedAt c cs
    | none => (.block marks lineStart openedAt, true)
  | .code (marks + 1) lineStart => (.code marks lineStart, true)
  | .line => if c = '\n' then (.code 0 true, false) else (.line, true)
  | .quoted escaped =>
    if c = '\n' then (.code 0 true, false)
    else if escaped then (.quoted false, false)
    else if k.escapes && c = '\\' then (.quoted true, false)
    else if c = '"' then (.code 0 false, false)
    else (.quoted false, false)
  | .code 0 lineStart =>
    if c = '\n' then (.code 0 true, false)
    else
      match k.startsBlockComment? (c :: cs) with
      | some (opener, closer) => blockStep closer opener.length lineStart pos c cs
      | none =>
        if k.startsLineComment lineStart (c :: cs) then (.line, true)
        else if c = '"' then (.quoted false, false)
        else (.code 0 (lineStart && isBlank c), false)

/-- Blanks of the size of a hidden character; a line feed stays. -/
def hidden (c : Char) : List Char := if c = '\n' then [c] else List.replicate c.utf8Size ' '

/-- Hides the comments of a text that starts at an offset; fails with the offset of a block comment
that is not closed. -/
def hideFrom (k : Conventions) : (pos : Nat) → CommentMode → List Char → Except Nat (List Char)
  | _, .block _ _ openedAt, [] => .error openedAt
  | _, _, [] => .ok []
  | pos, mode, c :: cs =>
    let (next, inComment) := k.commentStep pos mode c cs
    match k.hideFrom (pos + c.utf8Size) next cs with
    | .ok rest => .ok ((if inComment then hidden c else [c]) ++ rest)
    | .error openedAt => .error openedAt

/-- The complaint about a block comment that is not closed. -/
def unterminatedComment (openedAt : Nat) (opener closer : List Char) : Diagnostic where
  code := some .unterminatedComment
  message := "unterminated block comment"
  labels := [.primary (.ofRange openedAt (openedAt + byteSize opener)) "comment starts here"]
  help := some s!"close the comment with `{String.ofList closer}`"

/-- Replaces every comment of a text by blanks. -/
def hideComments (k : Conventions) (base : Nat) (cs : List Char) :
    Except Diagnostic (List Char) :=
  match k.hideFrom base (.code 0 true) cs with
  | .ok hidden => .ok hidden
  | .error openedAt =>
    let (opener, closer) := k.blockComment?.getD ([], [])
    .error (unterminatedComment openedAt opener closer)

end Conventions

/-! ## Statements -/

/-- A piece of a source with the offset of its first character. -/
structure Statement where
  text : List Char
  offset : Nat
  deriving DecidableEq, Repr

namespace Statement

/-- The place of the whole statement. -/
def span (s : Statement) : Span := .ofRange s.offset (s.offset + byteSize s.text)

/-- Drops the blanks on both sides. -/
def trim (s : Statement) : Statement where
  text := Text.trim s.text
  offset := s.offset + byteSize (s.text.takeWhile isBlank)

end Statement

namespace Conventions

/-- Where the cutter stands: outside strings or inside the one opened at an offset, and which
closers are due, each with the offset of its opener, the innermost first. -/
structure CutState where
  quote : Option (Nat × Bool) := none
  due : List (Char × Nat) := []
  deriving DecidableEq, Repr

/-- The ways in which strings and brackets can be out of balance. -/
inductive Imbalance where
  | unterminatedString (openedAt endedAt : Nat)
  | mismatched (found expected : Char) (place openedAt : Nat)
  | unexpected (found : Char) (place : Nat)
  | unclosed (expected : Char) (openedAt : Nat)
  deriving DecidableEq, Repr

/-- The complaint about an imbalance. -/
def Imbalance.diagnostic : Imbalance → Diagnostic
  | unterminatedString openedAt endedAt =>
    { code := some .unterminatedString
      message := "unterminated string literal"
      labels := [.primary (.ofRange openedAt endedAt) ErrorCode.unterminatedString.description]
      help := some "add closing `\"` before the end of the line" }
  | mismatched found expected place openedAt =>
    { code := some .unexpectedCloser
      message := s!"mismatched closing delimiter `{found}`"
      labels := [.primary (.ofRange place (place + 1)) "unexpected delimiter",
        .secondary (.ofRange openedAt (openedAt + 1)) "opened here"]
      help := some s!"expected `{expected}`" }
  | unexpected found place =>
    { code := some .unexpectedCloser
      message := s!"unexpected closing delimiter `{found}`"
      labels :=
        [.primary (.ofRange place (place + 1)) ErrorCode.unexpectedCloser.description] }
  | unclosed expected openedAt =>
    { code := some .unclosedDelimiter
      message := "unclosed delimiter"
      labels := [.primary (.ofRange openedAt (openedAt + 1)) "opened here"]
      help := some s!"add the closing `{expected}`" }

/-- A character that ends a statement outside strings and brackets. -/
def isSeparator (k : Conventions) (c : Char) : Bool := c = '\n' || (k.semicolons && c = ';')

/-- What the next character does: the state after it, and whether it ends a statement. -/
def cutStep (k : Conventions) (pos : Nat) (state : CutState) (c : Char) :
    Except Imbalance (CutState × Bool) :=
  match state.quote with
  | some (openedAt, escaped) =>
    if c = '\n' then .error (.unterminatedString openedAt pos)
    else if escaped then .ok ({ state with quote := some (openedAt, false) }, false)
    else if k.escapes && c = '\\' then .ok ({ state with quote := some (openedAt, true) }, false)
    else if c = '"' then .ok ({ state with quote := none }, false)
    else .ok (state, false)
  | none =>
    if c = '"' then .ok ({ state with quote := some (pos, false) }, false)
    else
      match k.brackets.find? fun b => b.1 = c with
      | some (_, closer) => .ok ({ state with due := (closer, pos) :: state.due }, false)
      | none =>
        if k.brackets.any fun b => b.2 = c then
          match state.due with
          | [] => .error (.unexpected c pos)
          | (expected, openedAt) :: due =>
            if expected = c then .ok ({ state with due }, false)
            else .error (.mismatched c expected pos openedAt)
        else .ok (state, state.due.isEmpty && k.isSeparator c)

/-- Whether a text may end in this state. -/
def cutEnd (pos : Nat) (state : CutState) : Except Imbalance Unit :=
  match state.quote, state.due with
  | some (openedAt, _), _ => .error (.unterminatedString openedAt pos)
  | none, (expected, openedAt) :: _ => .error (.unclosed expected openedAt)
  | none, [] => .ok ()

/-- Cuts a text at the ends of its statements: the piece up to the first cut, and the later pieces.
The cutting characters belong to no piece. -/
def cut (k : Conventions) : (pos : Nat) → CutState → List Char →
    Except Imbalance (List Char × List Statement)
  | pos, state, [] =>
    match cutEnd pos state with
    | .ok () => .ok ([], [])
    | .error imbalance => .error imbalance
  | pos, state, c :: cs =>
    match k.cutStep pos state c with
    | .error imbalance => .error imbalance
    | .ok (next, ends) =>
      match k.cut (pos + c.utf8Size) next cs with
      | .error imbalance => .error imbalance
      | .ok (piece, later) =>
        if ends then .ok ([], ⟨piece, pos + c.utf8Size⟩ :: later) else .ok (c :: piece, later)

/-- The statements of a text that starts at an offset: its pieces, trimmed, without the blank
ones. -/
def statements (k : Conventions) (base : Nat) (cs : List Char) :
    Except Diagnostic (List Statement) :=
  match k.cut base {} cs with
  | .ok (piece, later) =>
    .ok (((⟨piece, base⟩ :: later).map Statement.trim).filter fun s => !s.text.isEmpty)
  | .error imbalance => .error imbalance.diagnostic

end Conventions

end Flowchart
