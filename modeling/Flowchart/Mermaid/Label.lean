import Flowchart.Text.Basic
import Flowchart.Text.Numeral

/-!
# Mermaid labels

A label is written bare unless one of its characters could be read as syntax; then it stands in
double quotes with entity codes for the quote, the number sign and line breaks. Reading a label
decodes its entity codes. An unknown code stays as it is written.
-/

namespace Flowchart.Mermaid.Label

open Text (trim decimal? charOfCode?)

/-! ## Writing -/

/-- The characters that cannot stand in a bare label. -/
def reserved : List Char :=
  ['[', ']', '(', ')', '{', '}', '|', '"', '<', '>', '#', '&', ';', '%', '\n', '\r']

/-- The characters that a bare label cannot start with, because they would extend an opening
bracket. -/
def reservedFirst : List Char := ['/', '\\']

/-- The label must be quoted: it is empty or padded, or a reserved character stands in it. -/
def needsQuotes (label : List Char) : Bool :=
  label.isEmpty || trim label != label || label.head?.any reservedFirst.contains ||
    label.any reserved.contains

/-- A character in a quoted label. -/
def escape : Char → List Char
  | '#' => "#35;".toList
  | '"' => "#quot;".toList
  | '\n' => "#10;".toList
  | '\r' => "#13;".toList
  | c => [c]

/-- A label as it is written. -/
def encode (label : List Char) : List Char :=
  if needsQuotes label then '"' :: (label.flatMap escape ++ ['"']) else label

/-! ## Reading -/

/-- The largest number of digits of a code point. -/
def maxDigits : Nat := 7

/-- The character of an entity name: one of six words, or a decimal code point. -/
def entity? (name : List Char) : Option Char :=
  match String.ofList name with
  | "quot" => some '"'
  | "amp" => some '&'
  | "lt" => some '<'
  | "gt" => some '>'
  | "apos" => some '\''
  | "nbsp" => some '\u00a0'
  | _ => if name.length ≤ maxDigits then (decimal? name).bind charOfCode? else none

/-- The character of the entity code behind a number sign, and the length of the code up to its
semicolon. -/
def entityCode? (cs : List Char) : Option (Char × Nat) :=
  match Text.breakAt? [';'] cs with
  | some (name, _) => (entity? name).map fun c => (c, name.length + 1)
  | none => none

/-- Decodes a text after leaving out its first `skip` characters. -/
def decodeFrom : (skip : Nat) → List Char → List Char
  | _, [] => []
  | skip + 1, _ :: cs => decodeFrom skip cs
  | 0, c :: cs =>
    if c = '#' then
      match entityCode? cs with
      | some (decoded, length) => decoded :: decodeFrom length cs
      | none => c :: decodeFrom 0 cs
    else c :: decodeFrom 0 cs

/-- Decodes the entity codes of a text. -/
def decode (cs : List Char) : List Char := decodeFrom 0 cs

end Flowchart.Mermaid.Label
