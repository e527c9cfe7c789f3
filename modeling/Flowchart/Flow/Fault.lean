import Flowchart.Diagram.Basic
import Flowchart.Flow.Token

/-!
# Faults of flow text

What can be wrong with the tokens of flow text, and the diagnostic for each fault.
-/

namespace Flowchart.Flow

/-- What is wrong with flow text. -/
inductive FlowFault where
  | unexpectedEnd (expected : String)
  | unexpectedToken (token : Spanned Token) (expected : String)
  | unexpectedCloser (token : Spanned Token)
  | strayPipe (span : Span)
  | unclosed (opener : Span) (closer : String)
  | emptyLabel (span : Span)
  | danglingLabel (span : Span)
  | emptyGroup (what : String) (span : Span)
  | leadingBranch (span : Span)
  | refusedNode (error : DiagramError)
  deriving DecidableEq, Repr

namespace FlowFault

/-- The diagnostic for a fault in a source whose tokens end at `sourceEnd`. -/
def diagnostic (sourceEnd : Nat) : FlowFault → Diagnostic
  | unexpectedEnd expected =>
    { code := some .incompleteInput
      message := s!"unexpected end of input, expected {expected}"
      labels := [.primary (.point sourceEnd) ErrorCode.incompleteInput.description] }
  | unexpectedToken token expected =>
    { code := some .unexpectedToken
      message := s!"unexpected {token.value.shown}, expected {expected}"
      labels := [.primary token.span s!"expected {expected}"] }
  | unexpectedCloser token =>
    { code := some .unexpectedCloser
      message := s!"unexpected closing delimiter {token.value.shown}"
      labels := [.primary token.span ErrorCode.unexpectedCloser.description] }
  | strayPipe span =>
    { code := some .unexpectedToken
      message := "`|` outside a parallel group"
      labels := [.primary span "unexpected `|`"]
      help := some "separate lanes inside `parallel( ... )`" }
  | unclosed opener closer =>
    { code := some .unclosedDelimiter
      message := "unclosed delimiter"
      labels := [.primary opener "opened here"]
      help := some s!"add the closing {closer}" }
  | emptyLabel span =>
    { code := some .unexpectedToken
      message := "empty label"
      labels := [.primary span "label has no text"] }
  | danglingLabel span =>
    { code := some .danglingBranch
      message := "branch label is not followed by a step"
      labels := [.primary span ErrorCode.danglingBranch.description]
      help := some "write the branch target after the label: `[yes] Ship`" }
  | emptyGroup what span =>
    { code := some .emptyGroup
      message := s!"empty {what}"
      labels := [.primary span ErrorCode.emptyGroup.description]
      help := some "put at least one step inside the group" }
  | leadingBranch span =>
    { code := some .leadingBranch
      message := "the first step cannot be a branch"
      labels := [.primary span ErrorCode.leadingBranch.description]
      help := some "put the branching step before the label: `Valid? -> [yes] Ship`" }
  | refusedNode error =>
    { code := some .duplicateNode
      message := error.message }

end FlowFault

end Flowchart.Flow
