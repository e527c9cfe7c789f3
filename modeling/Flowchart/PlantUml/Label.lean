import Flowchart.Text.Basic
import Flowchart.Text.Numeral

/-!
# PlantUML labels

PlantUML has no escapes inside strings. What would end a string or start a comment is written as a
code point in angle brackets, a line feed as a backslash and the letter `n`. Titles and edge labels
stand without quotes and are trimmed when they are read, so `encodePadded` also writes the blanks
around them as code points.
-/

namespace Flowchart.PlantUml.Label

open Text (isBlank trim trimStart trimEnd hexCode hexadecimal? charOfCode?)

/-! ## Writing -/

/-- A character written as its code point. -/
def codePoint (c : Char) : List Char := "<U+".toList ++ hexCode c.toNat ++ ['>']

/-- A label as it is written between quotes. A less-than sign is a code point only before a `U`,
where it could be read as the start of one. -/
def encode : List Char → List Char
  | [] => []
  | c :: cs =>
    (match c with
      | '"' | '\\' | '\'' | '\r' => codePoint c
      | '\n' => ['\\', 'n']
      | '<' => if cs.head? = some 'U' then codePoint c else [c]
      | _ => [c]) ++ encode cs

/-- A label that keeps its blanks when it is trimmed. -/
def encodePadded (label : List Char) : List Char :=
  let encoded := encode label
  let leading := encoded.takeWhile isBlank
  let body := trim encoded
  let trailing := (encoded.drop (leading.length + body.length))
  leading.flatMap codePoint ++ body ++ trailing.flatMap codePoint

/-! ## Reading -/

/-- The largest number of characters of a code point. -/
def maxDigits : Nat := 6

/-- The character of a code point that the text starts with, and the length of what is written. -/
def codePoint? (cs : List Char) : Option (Char × Nat) :=
  match "<U+".toList.isPrefixOf? cs with
  | none => none
  | some body =>
    match Text.breakAt? ['>'] body with
    | none => none
    | some (digits, _) =>
      if digits.length ≤ maxDigits then
        ((hexadecimal? digits).bind charOfCode?).map fun c => (c, 3 + digits.length + 1)
      else none

/-- Decodes a text after leaving out its first `skip` characters. -/
def decodeFrom : (skip : Nat) → List Char → List Char
  | _, [] => []
  | skip + 1, _ :: cs => decodeFrom skip cs
  | 0, c :: cs =>
    if c = '\\' ∧ cs.head? = some 'n' then '\n' :: decodeFrom 1 cs
    else
      match codePoint? (c :: cs) with
      | some (decoded, length) => decoded :: decodeFrom (length - 1) cs
      | none => c :: decodeFrom 0 cs

/-- Decodes the code points and line feeds of a text. -/
def decode (cs : List Char) : List Char := decodeFrom 0 cs

end Flowchart.PlantUml.Label
