import Flowchart.Flow.Assembly
import Flowchart.Flow.Parsing

/-!
# Reading flow text

Flow text is read in three steps: tokens, a chain, a diagram. Either every problem of the tokens is
reported, or the first fault of the chain.
-/

namespace Flowchart.Flow

/-- The offset behind the last token. -/
def tokensEnd (tokens : List (Spanned Token)) : Nat :=
  (tokens.getLast?.map fun token => token.span.stop).getD 0

/-- Reads the diagram of a list of tokens. -/
def ofTokens (options : Options) (tokens : List (Spanned Token)) : Except FlowFault Diagram := do
  assemble options (← parse tokens)

/-- Reads flow text. -/
def read (options : Options) (source : String) : Except ParseError Diagram :=
  match tokens source.toList with
  | .error error => .error error
  | .ok tokens =>
    match ofTokens options tokens with
    | .ok d => .ok d
    | .error fault => .error (.single source.toList (fault.diagnostic (tokensEnd tokens)))

end Flowchart.Flow
