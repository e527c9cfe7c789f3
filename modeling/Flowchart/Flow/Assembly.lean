import Flowchart.Flow.Chain
import Flowchart.Flow.Fault
import Flowchart.Flow.Keyword

/-!
# Diagrams from chains

The steps of a chain are numbered in the order in which they are written; step `k` becomes the node
`nk`. A chain, its items and its lanes each come to a *piece*: its steps, its edges, and the steps
through which it is entered and left.

* Consecutive items are joined from every exit of the one to every entry of the other.
* A labelled item starts a branch. All branches start at the exits of the item before the first of
  them, and a merging separator joins their ends with the next item.
* A loop is joined from its exits back to its entries.

The edges into an item come before the edges inside it. **The label of the first item of a chain is
a fault**, because there is nothing to branch from.
-/

namespace Flowchart.Flow

/-! ## Pieces -/

/-- An edge between two steps. -/
structure StepEdge where
  source : Nat
  target : Nat
  type : EdgeType
  label : Option String
  deriving DecidableEq, Repr

/-- A part of a diagram: the labels of its steps, the edges that belong to it, the steps at which it
branches, and its entries and exits. -/
structure Piece where
  steps : List String := []
  edges : List StepEdge := []
  branchPoints : List Nat := []
  entries : List Nat := []
  exits : List Nat := []
  deriving DecidableEq, Repr

/-- The edges from every source to every target. -/
def joinAll (sources targets : List Nat) (type : EdgeType) (label : Option String) :
    List StepEdge :=
  sources.flatMap fun source => targets.map fun target => { source, target, type, label }

/-- The piece of one step. -/
def Piece.step (number : Nat) (label : String) : Piece where
  steps := [label]
  entries := [number]
  exits := [number]

/-- Two pieces side by side. -/
def Piece.beside (first second : Piece) : Piece where
  steps := first.steps ++ second.steps
  edges := first.edges ++ second.edges
  branchPoints := first.branchPoints ++ second.branchPoints
  entries := first.entries ++ second.entries
  exits := first.exits ++ second.exits

/-- A piece with edges from its exits back to its entries. -/
def Piece.repeated (body : Piece) (label : Option String) : Piece :=
  { body with edges := body.edges ++ joinAll body.exits body.entries .loopBack label }

/-! ## Branches -/

/-- The branches that are open: where all of them start, and the ends of the finished ones. -/
structure Fork where
  points : List Nat
  finished : List Nat
  deriving DecidableEq, Repr

/-- The end of a chain so far: the exits of its last item, and its open branches. -/
structure Front where
  exits : List Nat
  fork : Option Fork := none
  deriving DecidableEq, Repr

namespace Front

/-- The front behind a merging separator: every branch ends here. -/
def merged (front : Front) : Front :=
  match front.fork with
  | some fork => ⟨fork.finished ++ front.exits, none⟩
  | none => front

/-- Every step through which the chain is left. -/
def allExits (front : Front) : List Nat :=
  (front.fork.elim [] Fork.finished) ++ front.exits

/-- The branches after one more has started. -/
def branched (front : Front) : Fork :=
  match front.fork with
  | some fork => { fork with finished := fork.finished ++ front.exits }
  | none => ⟨front.exits, []⟩

end Front

/-- The piece behind a front: the edges into an item, the item, and what follows it. -/
def Piece.follow (front : Front) (label : Option BranchLabel) (item rest : Piece) : Piece :=
  let fork := front.branched
  let edges := match label with
    | some label => joinAll fork.points item.entries .conditional (some label.value)
    | none => joinAll front.exits item.entries .plain none
  { steps := item.steps ++ rest.steps
    edges := edges ++ item.edges ++ rest.edges
    branchPoints := (if label.isSome then fork.points else []) ++ item.branchPoints ++
      rest.branchPoints
    exits := rest.exits }

/-- The front behind an item that leaves through `exits`. -/
def Front.advance (front : Front) (label : Option BranchLabel) (exits : List Nat) : Front :=
  ⟨exits, if label.isSome then some front.branched else front.fork⟩

/-! ## Assembly -/

mutual

/-- The piece of an item whose first step has this number. -/
def Item.piece (number : Nat) : Item → Except FlowFault Piece
  | .step label => .ok (.step number label)
  | .parallel lanes => lanes.piece number
  | .loop label body => do
    let body ← body.piece number
    return body.repeated label

/-- The piece of a chain. -/
def Chain.piece (number : Nat) : Chain → Except FlowFault Piece
  | .start (some label) _ _ => .error (.leadingBranch label.span)
  | .start none item rest => do
    let item ← item.piece number
    let rest ← rest.piece (number + item.steps.length) ⟨item.exits, none⟩
    return { item.beside rest with entries := item.entries, exits := rest.exits }

/-- The piece of the items behind a front. -/
def Links.piece (number : Nat) (front : Front) : Links → Except FlowFault Piece
  | .nil => .ok { exits := front.allExits }
  | .next merges label item rest => do
    let front := if merges then front.merged else front
    let item ← item.piece number
    let rest ← rest.piece (number + item.steps.length) (front.advance label item.exits)
    return .follow front label item rest

/-- The piece of parallel lanes. -/
def Lanes.piece (number : Nat) : Lanes → Except FlowFault Piece
  | .last lane => lane.piece number
  | .cons lane rest => do
    let lane ← lane.piece number
    let rest ← rest.piece (number + lane.steps.length)
    return lane.beside rest

end

/-! ## Diagrams -/

/-- What a reader of flow text can be told. -/
structure Options where
  /-- The title of the diagram. -/
  title : Option String := none
  /-- In a linear flow, a first and a last step that would be processes are start and end. -/
  positionalTerminals : Bool := false
  deriving DecidableEq, Repr

namespace Piece

/-- The id of a step. -/
def stepId (number : Nat) : String := s!"n{number}"

/-- The type of a step: that of its label, but a process at which the flow branches is a
decision. -/
def stepType (piece : Piece) (number : Nat) (label : String) : NodeType :=
  match classify label with
  | .process => if piece.branchPoints.contains number then .decision else .process
  | type => type

/-- The node of a step. -/
def node (piece : Piece) (step : String × Nat) : Node where
  id := stepId step.2
  label := step.1
  type := piece.stepType step.2 step.1

/-- The nodes of all steps. -/
def nodes (piece : Piece) : List Node := piece.steps.zipIdx.map piece.node

/-- An edge between the nodes of two steps. -/
def edge (e : StepEdge) : Edge where
  source := stepId e.source
  target := stepId e.target
  label := e.label
  type := e.type

end Piece

/-- A process becomes a node of another type. -/
def retype (type : NodeType) (node : Node) : Node :=
  if node.type = .process then { node with type } else node

/-- The nodes with a start in front and an end behind. -/
def withTerminals (nodes : List Node) : List Node :=
  (nodes.modify 0 (retype .start)).modify (nodes.length - 1) (retype .finish)

/-- The diagram of some nodes and edges; refuses the empty id and an id that is taken. -/
def Options.diagram (options : Options) (nodes : List Node) (edges : List Edge) :
    Except DiagramError Diagram :=
  let titled := match options.title with
    | some title => Diagram.empty.setMetadata Diagram.titleKey title
    | none => Diagram.empty
  match nodes.foldlM Diagram.addNode titled with
  | .ok d => .ok (d.addEdges edges)
  | .error error => .error error

/-- The diagram of a flow, which is empty or one chain. -/
def assemble (options : Options) (flow : Option Chain) : Except FlowFault Diagram :=
  match flow with
  | none => (options.diagram [] []).mapError .refusedNode
  | some chain => do
    let piece ← chain.piece 0
    let nodes :=
      if options.positionalTerminals && chain.isLinear then withTerminals piece.nodes
      else piece.nodes
    (options.diagram nodes (piece.edges.map Piece.edge)).mapError .refusedNode

end Flowchart.Flow
