import Flowchart.Source.Span
import Flowchart.Validation.Finding

/-!
# Diagnostics

A reader that refuses a source says why in one or more diagnostics. Each has a message, usually a
code, labelled places in the source, a hint and the line of its first primary place. A refusal lists
its diagnostics in the order in which they were found.
-/

namespace Flowchart

/-! ## Codes -/

/-- The kinds of problems: lexical ones first, then those of statements, then references. -/
inductive ErrorCode where
  | unterminatedString
  | unexpectedCharacter
  | invalidEscape
  | unclosedDelimiter
  | unexpectedCloser
  | unterminatedComment
  | unexpectedToken
  | incompleteInput
  | badHeader
  | unrecognizedStatement
  | leadingBranch
  | emptyGroup
  | danglingBranch
  | missingFooter
  | undeclaredNode
  | duplicateNode
  deriving DecidableEq, Repr

namespace ErrorCode

/-- Every code. -/
def all : List ErrorCode :=
  [unterminatedString, unexpectedCharacter, invalidEscape, unclosedDelimiter, unexpectedCloser,
    unterminatedComment, unexpectedToken, incompleteInput, badHeader, unrecognizedStatement,
    leadingBranch, emptyGroup, danglingBranch, missingFooter, undeclaredNode, duplicateNode]

/-- The number under which a code is documented. -/
def name : ErrorCode → String
  | unterminatedString => "E001"
  | unexpectedCharacter => "E002"
  | invalidEscape => "E003"
  | unclosedDelimiter => "E004"
  | unexpectedCloser => "E005"
  | unterminatedComment => "E006"
  | unexpectedToken => "E100"
  | incompleteInput => "E101"
  | badHeader => "E102"
  | unrecognizedStatement => "E103"
  | leadingBranch => "E104"
  | emptyGroup => "E105"
  | danglingBranch => "E106"
  | missingFooter => "E107"
  | undeclaredNode => "E200"
  | duplicateNode => "E201"

/-- What a code means, in a few words. -/
def description : ErrorCode → String
  | unterminatedString => "unterminated string literal"
  | unexpectedCharacter => "unexpected character"
  | invalidEscape => "invalid escape sequence"
  | unclosedDelimiter => "unclosed delimiter"
  | unexpectedCloser => "unexpected closing delimiter"
  | unterminatedComment => "unterminated block comment"
  | unexpectedToken => "unexpected token"
  | incompleteInput => "incomplete input"
  | badHeader => "missing or invalid header"
  | unrecognizedStatement => "unrecognized statement"
  | leadingBranch => "branch label on first step"
  | emptyGroup => "empty group"
  | danglingBranch => "dangling branch label"
  | missingFooter => "missing footer"
  | undeclaredNode => "undeclared node"
  | duplicateNode => "duplicate node declaration"

/-- The code with this number. -/
def ofName? (s : String) : Option ErrorCode := all.find? fun code => code.name == s

end ErrorCode

/-! ## Labels and diagnostics -/

/-- The offending place, or a place related to it. -/
inductive LabelRole where
  | primary
  | secondary
  deriving DecidableEq, Repr

/-- The name of a role. -/
def LabelRole.name : LabelRole → String
  | primary => "primary"
  | secondary => "secondary"

/-- A remark on a place of the source. -/
structure Label where
  span : Span
  message : String
  role : LabelRole := .primary
  deriving DecidableEq, Repr

namespace Label

/-- A remark on the offending place. -/
def primary (span : Span) (message : String) : Label := { span, message }

/-- A remark on a related place. -/
def secondary (span : Span) (message : String) : Label := { span, message, role := .secondary }

end Label

/-- One problem of a source. -/
structure Diagnostic where
  severity : Severity := .error
  code : Option ErrorCode := none
  message : String
  labels : List Label := []
  help : Option String := none
  line : Option Nat := none
  deriving DecidableEq, Repr

namespace Diagnostic

/-- The place of the first primary label. -/
def primarySpan? (d : Diagnostic) : Option Span :=
  (d.labels.find? fun l => l.role = .primary).map Label.span

/-- Fills in the line of the primary place, unless a line is set. -/
def locate (source : List Char) (d : Diagnostic) : Diagnostic :=
  match d.line with
  | some _ => d
  | none => { d with line := d.primarySpan?.map fun span => lineNumber source span.start }

/-- A located diagnostic has the code and the place that it was made with. -/
@[simp]
theorem code_locate (source : List Char) (d : Diagnostic) : (d.locate source).code = d.code := by
  unfold locate
  split <;> rfl

@[simp]
theorem primarySpan?_locate (source : List Char) (d : Diagnostic) :
    (d.locate source).primarySpan? = d.primarySpan? := by
  unfold locate
  split <;> rfl

/-- The text of a diagnostic in one line. -/
def text (d : Diagnostic) : String :=
  let code := match d.code with
    | some code => s!"[{code.name}]"
    | none => ""
  let line := match d.line with
    | some line => s!" (line {line})"
    | none => ""
  d.severity.name ++ code ++ ": " ++ d.message ++ line

end Diagnostic

/-- The refusal of a source, with every problem that was found. -/
structure ParseError where
  diagnostics : List Diagnostic
  deriving DecidableEq, Repr

namespace ParseError

/-- The refusal for one problem. -/
def single (source : List Char) (d : Diagnostic) : ParseError := ⟨[d.locate source]⟩

/-- The first problem and how many more there are. -/
def text (e : ParseError) : String :=
  match e.diagnostics with
  | [] => ""
  | [d] => d.text
  | d :: rest => d.text ++ s!" (+{rest.length} more)"

end ParseError

end Flowchart
