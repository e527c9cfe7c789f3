/-!
# Quoted text

Double quotes around a text in which a quote, a backslash, a line feed and a tab are written with a
backslash. D2, DOT, flow text and the front matter of Mermaid share this form.

`decode?` reads a quoted text and leaves what follows its closing quote. Any other escape stands for
itself, backslash included, so **`decode?` undoes `encode` but also reads more than `encode`
writes**.
-/

namespace Flowchart.Text.Quoted

/-- The written form of one character. -/
def escape : Char → List Char
  | '"' => ['\\', '"']
  | '\\' => ['\\', '\\']
  | '\n' => ['\\', 'n']
  | '\t' => ['\\', 't']
  | c => [c]

/-- A text in double quotes. -/
def encode (cs : List Char) : List Char := '"' :: (cs.flatMap escape ++ ['"'])

/-- The characters that stand for a backslash followed by `c`. -/
def unescape : Char → List Char
  | '"' => ['"']
  | '\\' => ['\\']
  | 'n' => ['\n']
  | 't' => ['\t']
  | c => ['\\', c]

/-- Reads up to the closing quote; fails if there is none. -/
def decodeTail? : List Char → Option (List Char × List Char)
  | [] => none
  | '"' :: rest => some ([], rest)
  | '\\' :: c :: rest => (decodeTail? rest).map fun found => (unescape c ++ found.1, found.2)
  | c :: rest => (decodeTail? rest).map fun found => (c :: found.1, found.2)

/-- Reads a quoted text and what follows it. -/
def decode? : List Char → Option (List Char × List Char)
  | '"' :: rest => decodeTail? rest
  | _ => none

theorem decodeTail?_escape_append (c : Char) (rest : List Char) :
    decodeTail? (escape c ++ rest) =
      (decodeTail? rest).map fun found => (c :: found.1, found.2) := by
  unfold escape
  split
  · simp [decodeTail?, unescape]
  · simp [decodeTail?, unescape]
  · simp [decodeTail?, unescape]
  · simp [decodeTail?, unescape]
  · next hquote hslash _ _ =>
    rw [List.singleton_append, decodeTail?]
    · exact hquote
    · exact fun _ _ h _ => hslash h

theorem decodeTail?_flatMap_escape (cs rest : List Char) :
    decodeTail? (cs.flatMap escape ++ '"' :: rest) = some (cs, rest) := by
  induction cs with
  | nil => simp [decodeTail?]
  | cons c cs ih => simp [List.append_assoc, decodeTail?_escape_append, ih]

/-- Reading a quoted text gives the text back and leaves what follows. -/
theorem decode?_encode_append (cs rest : List Char) :
    decode? (encode cs ++ rest) = some (cs, rest) := by
  simp [encode, decode?, decodeTail?_flatMap_escape]

end Flowchart.Text.Quoted
