/-!
# Stored values

Settings come from outside as plain data: words, switches, lists and tables. This module says how a
record or a word is read from such data. **Nothing is ignored**: a field that a record does not
have, or a value of the wrong kind, makes the whole reading fail.

Settings files are TOML documents. What turns a document into plain data comes from outside too: it
is a `TomlReader`.
-/

namespace Flowchart

/-- Plain data; a value that no setting can have is `other`. -/
inductive StoredValue where
  | null
  | bool (value : Bool)
  | text (value : String)
  | list (items : List StoredValue)
  | table (entries : List (String × StoredValue))
  | other
  deriving Inhabited

/-- What reads TOML documents: the data that a document stands for, or nothing if it is not one. An
empty document is a table without entries. -/
structure TomlReader where
  read? : String → Option StoredValue
  read?_empty : read? "" = some (.table [])

namespace StoredValue

variable {α : Type}

/-- A switch. -/
def bool? : StoredValue → Option Bool
  | bool value => some value
  | _ => none

/-- A text. -/
def text? : StoredValue → Option String
  | text value => some value
  | _ => none

/-- A word of a vocabulary: its text, or a table that holds nothing but the word with no value. -/
def word? : StoredValue → Option String
  | text value => some value
  | table [(word, null)] => some word
  | _ => none

/-- A value that may be missing. -/
def nullable? (read : StoredValue → Option α) : StoredValue → Option (Option α)
  | null => some none
  | value => (read value).map some

/-- The fields of a record, in the order of their names: those of a table that has no other fields,
or the items of a list that is not longer than the record. -/
def fields? (names : List String) : StoredValue → Option (List (Option StoredValue))
  | table entries =>
    if entries.all fun entry => names.contains entry.1 then
      some (names.map fun name => (entries.find? fun entry => entry.1 == name).map Prod.snd)
    else none
  | list items =>
    if items.length ≤ names.length then
      some (names.zipIdx.map fun name => items[name.2]?)
    else none
  | _ => none

/-- A field that has a default. -/
def orDefault (default : α) (read : StoredValue → Option α) : Option StoredValue → Option α
  | none => some default
  | some value => read value

end StoredValue

end Flowchart
