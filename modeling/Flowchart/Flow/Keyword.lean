import Flowchart.Text.Basic
import Flowchart.Vocabulary.Kinds

/-!
# The type of a step by its label

A step whose label holds a keyword has the type of the keyword; otherwise it is a process. The rules
stand in order of priority, and **the first rule that matches counts**. A closing question mark
makes a decision, unless an earlier rule matches.
-/

namespace Flowchart.Flow

open Text (isAlphanumeric trimEnd)

/-- A node type with the words that mean it. -/
structure KeywordRule where
  type : NodeType
  keywords : List String
  /-- A character at the end of the label that means the type as well. -/
  closing : Option Char := none

namespace KeywordRule

/-- The rules in order of priority. -/
def all : List KeywordRule :=
  [{ type := .start, keywords := ["start", "begin"] },
    { type := .finish, keywords := ["end", "finish", "stop", "done"] },
    { type := .decision, closing := some '?',
      keywords := ["decide", "check", "if", "whether", "verify", "validate"] },
    { type := .data,
      keywords := ["database", "db", "store", "storage", "cache", "save", "persist"] },
    { type := .subprocess, keywords := ["subprocess", "subroutine", "procedure", "call"] }]

/-- A character as it is compared with a keyword: in lower case. The Kelvin sign is the one
character outside ASCII whose lower case is an ASCII letter. -/
def folded (c : Char) : Char := if c = '\u212a' then 'k' else c.toLower

/-- The runs of letters and numerals of a label. -/
def labelWords (label : List Char) : List (List Char) :=
  (label.splitOnP fun c => !isAlphanumeric c).filter fun word => !word.isEmpty

/-- The rule applies to a label. -/
def isMatch (rule : KeywordRule) (label : List Char) : Bool :=
  (rule.closing.isSome && (trimEnd label).getLast? = rule.closing) ||
    (labelWords label).any fun word => rule.keywords.contains (String.ofList (word.map folded))

end KeywordRule

/-- The node type of a step with this label. -/
def classify (label : String) : NodeType :=
  match KeywordRule.all.find? fun rule => rule.isMatch label.toList with
  | some rule => rule.type
  | none => .process

end Flowchart.Flow
