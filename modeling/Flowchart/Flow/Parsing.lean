import Flowchart.Flow.Chain
import Flowchart.Flow.Fault

/-!
# Chains from tokens

Reads the tokens of flow text into chains:

* a flow is a chain with separators around it, or separators only;
* a chain is one item or more, separators between them;
* an item may have a branch label in square brackets in front;
* `parallel` or `loop` in front of a bracket starts a group, anywhere else it is a step.

**The first fault counts.** Trivia is dropped before, so no function here meets it.
-/

namespace Flowchart.Flow

open Text (sameLetters)

/-- A reader of tokens. -/
abbrev TokenReader (α : Type) := StateT (List (Spanned Token)) (Except FlowFault) α

namespace TokenReader

variable {α : Type}

/-- Stops at a fault. -/
def fail (fault : FlowFault) : TokenReader α := fun _ => .error fault

/-- The next token, which is not read yet. -/
def peek? : TokenReader (Option (Spanned Token)) := fun ts => .ok (ts.head?, ts)

/-- Goes behind the next token. -/
def skip : TokenReader Unit := fun ts => .ok ((), ts.tail)

/-- The fault of finding this token, or the end, where something else is expected. -/
def unexpected (found : Option (Spanned Token)) (expected : String) : FlowFault :=
  match found with
  | some token => .unexpectedToken token expected
  | none => .unexpectedEnd expected

/-- The fault of finding this token, or the end, in a bracket that was opened at `opener`. -/
def unclosedOr (found : Option (Spanned Token)) (opener : Span) (closer expected : String) :
    FlowFault :=
  match found with
  | none => .unclosed opener closer
  | some token =>
    if token.value.isCloser then .unexpectedCloser token
    else .unexpectedToken token expected

/-- The same for a label, which the end of the line leaves unclosed. -/
def unclosedLabelOr (found : Option (Spanned Token)) (opener : Span) (expected : String) :
    FlowFault :=
  if found.any fun token => token.value = .newline then .unclosed opener "`]`"
  else unclosedOr found opener "`]`" expected

/-! ## Separators and labels -/

/-- Separators up to the next token that is none: whether there are any, and whether one of them
merges. -/
def separatorRun : List (Spanned Token) → Option Bool × List (Spanned Token)
  | [] => (none, [])
  | token :: ts =>
    if token.value.isSeparator then
      let (later, rest) := separatorRun ts
      (some (token.value = .mergeArrow || later.getD false), rest)
    else (none, token :: ts)

/-- Reads separators. -/
def separators : TokenReader (Option Bool) := fun ts => .ok (separatorRun ts)

/-- A chain ends in front of this token. -/
def endsChain (found : Option (Spanned Token)) : Bool :=
  match found with
  | none => true
  | some token => token.value.isCloser || token.value = .pipe

/-- Reads a label whose opening bracket is the next token. -/
def label (opener : Span) : TokenReader BranchLabel := do
  skip
  let found ← peek?
  match found.map Spanned.value with
  | some (.text content) | some (.quoted content) =>
    skip
    match ← peek? with
    | some ⟨.closeBracket, span⟩ =>
      skip
      return ⟨String.ofList content, opener.union span⟩
    | other => fail (unclosedLabelOr other opener "`]`")
  | some .closeBracket =>
    fail (.emptyLabel (opener.union ((found.map Spanned.span).getD opener)))
  | _ => fail (unclosedLabelOr found opener "label text")

/-- Reads a label if one follows. -/
def label? : TokenReader (Option BranchLabel) := do
  match ← peek? with
  | some ⟨.openBracket, span⟩ =>
    let label ← label span
    return some label
  | _ => return none

/-- Reads the label of a branch if one follows; an item must follow the label. -/
def branchLabel? : TokenReader (Option BranchLabel) := do
  match ← label? with
  | none => return none
  | some label =>
    let found ← peek?
    if endsChain found || found.any fun token => token.value.isSeparator then
      fail (.danglingLabel label.span)
    else return some label

/-! ## Groups -/

/-- The groups that a keyword can start. -/
inductive Group where
  | parallel
  | loop
  deriving DecidableEq, Repr

/-- The keyword of a group. -/
def Group.keyword : Group → String
  | parallel => "parallel"
  | loop => "loop"

/-- The group that a text token starts, if a bracket follows it. -/
def group? (content : List Char) (following : Option (Spanned Token)) : Option Group :=
  if following.any fun token => token.value = .openParen || token.value = .openBracket then
    [Group.parallel, .loop].find? fun group => sameLetters content group.keyword.toList
  else none

/-- Reads the opening parenthesis of a group. -/
def openGroup : TokenReader Span := do
  match ← peek? with
  | some ⟨.openParen, span⟩ =>
    skip
    return span
  | other => fail (unexpected other "`(`")

/-- Separators at the start of a lane or a loop body; an item must follow them. -/
def startLane (keyword opener : Span) (what : String) : TokenReader Unit := do
  let _ ← separators
  let found ← peek?
  if endsChain found then
    match found with
    | some ⟨.closeParen, span⟩ | some ⟨.pipe, span⟩ =>
      fail (.emptyGroup what (keyword.union span))
    | other => fail (unclosedOr other opener "`)`" "a step")

mutual

/-- Reads an item. -/
def item : (fuel : Nat) → TokenReader Item
  | 0 => fail (.unexpectedEnd "a step")
  | fuel + 1 => do
    match ← peek? with
    | some ⟨.text content, keyword⟩ =>
      skip
      match group? content (← peek?) with
      | some .parallel =>
        let opener ← openGroup
        let lanes ← lanes fuel keyword opener
        return .parallel lanes
      | some .loop =>
        let label ← label?
        let opener ← openGroup
        startLane keyword opener "loop body"
        let body ← chain fuel
        let _ ← separators
        match ← peek? with
        | some ⟨.closeParen, _⟩ =>
          skip
          return .loop (label.map Spanned.value) body
        | other => fail (unclosedOr other opener "`)`" "`)`")
      | none => return .step (String.ofList content)
    | some ⟨.quoted content, _⟩ =>
      skip
      return .step (String.ofList content)
    | some token =>
      fail (if token.value.isCloser then .unexpectedCloser token else .unexpectedToken token "a step")
    | none => fail (.unexpectedEnd "a step")

/-- Reads a chain and the separators behind it. -/
def chain : (fuel : Nat) → TokenReader Chain
  | 0 => fail (.unexpectedEnd "a step")
  | fuel + 1 => do
    let label ← branchLabel?
    let item ← item fuel
    let rest ← links fuel
    return .start label item rest

/-- Reads the further items of a chain and the separators behind them. -/
def links : (fuel : Nat) → TokenReader Links
  | 0 => fail (.unexpectedEnd "a step")
  | fuel + 1 => do
    match ← separators with
    | none => return .nil
    | some merges =>
      if endsChain (← peek?) then return .nil
      else
        let label ← branchLabel?
        let item ← item fuel
        let rest ← links fuel
        return .next merges label item rest

/-- Reads lanes up to the closing parenthesis of their group. -/
def lanes : (fuel : Nat) → (keyword opener : Span) → TokenReader Lanes
  | 0, _, _ => fail (.unexpectedEnd "a step")
  | fuel + 1, keyword, opener => do
    startLane keyword opener "parallel lane"
    let lane ← chain fuel
    match ← peek? with
    | some ⟨.pipe, _⟩ =>
      skip
      let rest ← lanes fuel keyword opener
      return .cons lane rest
    | some ⟨.closeParen, _⟩ =>
      skip
      return .last lane
    | other => fail (unclosedOr other opener "`)`" "`|` or `)`")

end

/-! ## Flows -/

/-- Reads a flow, which is empty or one chain. -/
def flow (fuel : Nat) : TokenReader (Option Chain) := do
  let _ ← separators
  match ← peek? with
  | none => return none
  | some _ =>
    let chain ← chain fuel
    match ← peek? with
    | none => return some chain
    | some token =>
      if token.value.isCloser then fail (.unexpectedCloser token)
      else if token.value = .pipe then fail (.strayPipe token.span)
      else fail (unexpected (some token) "`->`, `=>` or a newline")

end TokenReader

/-- The chain of a list of tokens, if it holds any item. Each token takes three calls at most. -/
def parse (tokens : List (Spanned Token)) : Except FlowFault (Option Chain) :=
  let tokens := tokens.filter fun token => !token.value.isTrivia
  match TokenReader.flow (3 * tokens.length + 3) tokens with
  | .ok (chain, _) => .ok chain
  | .error fault => .error fault

end Flowchart.Flow
