import Flowchart.Proofs.Flow.Kinds
import Flowchart.Proofs.Flow.Leading

/-!
# Flows built in place

A diagram can also be built without pieces: one list of nodes and one of edges grow along the tree. An
item is then known by the indices of its entries and exits; a branch point gets its type when a branch
starts, by its index among the nodes; and the edges into an item are inserted at the position that the
edges had reached before it. Each of these steps looks something up that might not be there.

**It always is there, and the construction comes to the same diagram**: at every step the lists are those
of the piece that was assembled so far, and a front names only steps that this piece has. So the one
fault that remains is a label in front of a chain.
-/

namespace Flowchart.Flow

/-! ## Construction -/

/-- What can stop a construction: a fault of the flow, or an index or position outside the lists. -/
inductive BuildStop where
  | fault (fault : FlowFault)
  | noNode (index : Nat)
  | noPlace (position : Nat)
  deriving DecidableEq, Repr

/-- The nodes and edges that were built so far. -/
structure Building where
  nodes : List Node := []
  edges : List Edge := []
  deriving DecidableEq, Repr

/-- The indices at which an item that was built is entered and left. -/
structure Ends where
  entries : List Nat
  exits : List Nat
  deriving DecidableEq, Repr

/-- A step of a construction. -/
abbrev Builder (α : Type) := StateT Building (Except BuildStop) α

namespace Builder

/-- The construction stops. -/
def stop {α : Type} (reason : BuildStop) : Builder α := fun _ => .error reason

/-- The node with this index. -/
def node (index : Nat) : Builder Node := fun b =>
  match b.nodes[index]? with
  | some node => .ok (node, b)
  | none => .error (.noNode index)

/-- A process with this index becomes a decision. -/
def promote (index : Nat) : Builder Unit := fun b =>
  match b.nodes[index]? with
  | some _ => .ok ((), { b with nodes := b.nodes.modify index (retype .decision) })
  | none => .error (.noNode index)

/-- Appends the node of a step. -/
def addStep (label : String) : Builder Ends := fun b =>
  let index := b.nodes.length
  let node : Node := { id := Piece.stepId index, label, type := classify label }
  .ok (⟨[index], [index]⟩, { b with nodes := b.nodes ++ [node] })

/-- The position behind the last edge. -/
def position : Builder Nat := fun b => .ok (b.edges.length, b)

/-- Inserts edges at a position. -/
def insertEdges (position : Nat) (edges : List Edge) : Builder Unit := fun b =>
  if position ≤ b.edges.length then
    .ok ((), { b with edges := b.edges.take position ++ edges ++ b.edges.drop position })
  else .error (.noPlace position)

/-- The edge between the nodes with these indices. -/
def edgeBetween (type : EdgeType) (label : Option String) (source target : Nat) : Builder Edge := do
  let first ← node source
  let second ← node target
  return { source := first.id, target := second.id, label, type }

/-- Inserts the edges from every source to every target at a position. -/
def connectAt (position : Nat) (sources targets : List Nat) (type : EdgeType)
    (label : Option String) : Builder Unit := do
  let edges ← sources.mapM fun source => targets.mapM (edgeBetween type label source)
  insertEdges position edges.flatten

/-- Inserts the edges into an item, at the position that was reached before the item. The points at
which a branch starts may become decisions. -/
def enter (front : Front) (label : Option BranchLabel) (position : Nat) (entries : List Nat) :
    Builder Unit :=
  match label with
  | some label => do
    front.branched.points.forM promote
    connectAt position front.branched.points entries .conditional (some label.value)
  | none => connectAt position front.exits entries .plain none

/-- Builds an item and then the edges into it. -/
def buildBehind (front : Front) (label : Option BranchLabel) (item : Builder Ends) : Builder Ends := do
  let reached ← position
  let ends ← item
  enter front label reached ends.entries
  return ends

end Builder

open Builder

mutual

/-- Builds an item. -/
def Item.build : Item → Builder Ends
  | .step label => addStep label
  | .parallel lanes => lanes.build
  | .loop label body => do
    let ends ← body.build
    connectAt (← position) ends.exits ends.entries .loopBack label
    return ends

/-- Builds a chain, whose first item is entered from nowhere. -/
def Chain.build : Chain → Builder Ends
  | .start (some label) _ _ => stop (.fault (.leadingBranch label.span))
  | .start none item rest => do
    let ends ← buildBehind ⟨[], none⟩ none item.build
    let exits ← rest.build ⟨ends.exits, none⟩
    return ⟨ends.entries, exits⟩

/-- Builds the items behind a front, and returns where they are left. -/
def Links.build (front : Front) : Links → Builder (List Nat)
  | .nil => return front.allExits
  | .next merges label item rest => do
    let front := if merges then front.merged else front
    let ends ← buildBehind front label item.build
    rest.build (front.advance label ends.exits)

/-- Builds parallel lanes. -/
def Lanes.build : Lanes → Builder Ends
  | .last lane => lane.build
  | .cons lane rest => do
    let first ← lane.build
    let second ← rest.build
    return ⟨first.entries ++ second.entries, first.exits ++ second.exits⟩

end

/-- Builds the diagram of a flow, which is empty or one chain. -/
def build (options : Options) (flow : Option Chain) : Except BuildStop Diagram := do
  let (_, built) ← (flow.elim (pure ⟨[], []⟩) Chain.build : Builder Ends) {}
  let nodes :=
    if options.positionalTerminals && flow.any Chain.isLinear then withTerminals built.nodes
    else built.nodes
  (options.diagram nodes built.edges).mapError fun error => .fault (.refusedNode error)

/-! ## What has been built of a piece -/

variable {acc piece first second : Piece} {front : Front} {label : Option BranchLabel} {α β : Type}

/-- The nodes and edges of a piece. -/
def Building.of (piece : Piece) : Building := ⟨piece.nodes, piece.edges.map Piece.edge⟩

/-- The piece branches at steps that it has. -/
def Piece.IsBuilt (piece : Piece) : Prop := ∀ k ∈ piece.branchPoints, k < piece.steps.length

/-- The nodes of a piece stand where its steps do. -/
theorem Piece.getElem?_nodes (piece : Piece) (k : Nat) :
    piece.nodes[k]? = piece.steps[k]?.map fun label => piece.node (label, k) := by
  rw [nodes, List.getElem?_map, List.getElem?_zipIdx, Option.map_map, Nat.zero_add]
  rfl

/-- There are as many nodes as steps. -/
theorem Piece.length_nodes (piece : Piece) : piece.nodes.length = piece.steps.length := by
  rw [nodes, List.length_map, List.length_zipIdx]

/-- Only the set of branch points counts. -/
theorem Piece.node_congr (h : ∀ k, k ∈ first.branchPoints ↔ k ∈ second.branchPoints) :
    first.node = second.node := by
  funext step
  have hcontains : first.branchPoints.contains step.2 = second.branchPoints.contains step.2 := by
    rw [Bool.eq_iff_iff, List.contains_iff_mem, List.contains_iff_mem, h]
  rw [node, node, stepType, stepType, hcontains]

/-- What has been built depends on branch points only as a set. -/
theorem Building.of_congr (hsteps : first.steps = second.steps) (hedges : first.edges = second.edges)
    (hpoints : ∀ k, k ∈ first.branchPoints ↔ k ∈ second.branchPoints) :
    Building.of first = Building.of second := by
  rw [of, of, Piece.nodes, Piece.nodes, hsteps, hedges, Piece.node_congr hpoints]

/-- Built pieces stay built when a piece is put beside them whose branch points are steps of the two. -/
theorem Piece.IsBuilt.beside (h : acc.IsBuilt)
    (hpoints : ∀ k ∈ piece.branchPoints, k < acc.steps.length + piece.steps.length) :
    (acc.beside piece).IsBuilt := by
  have hlength : (acc.beside piece).steps.length = acc.steps.length + piece.steps.length :=
    List.length_append
  intro k hk
  rw [hlength]
  rcases List.mem_append.1 hk with hk | hk
  · exact Nat.lt_add_right _ (h k hk)
  · exact hpoints k hk

/-- Steps at which a piece branches are sources of its edges. -/
theorem HaveKinds.points_lt {bound : Nat} (h : HaveKinds piece.edges piece.branchPoints)
    (hbelow : piece.Below bound) : ∀ k ∈ piece.branchPoints, k < bound := by
  intro k hk
  obtain ⟨e, he, -, rfl⟩ := (h.mem_points_iff k).1 hk
  exact (hbelow.edges e he).1

/-! ## Steps of a construction -/

namespace Builder

/-- A step of the piece has a node. -/
theorem exists_node {k : Nat} (hk : k < acc.steps.length) :
    ∃ n, node k (.of acc) = .ok (n, .of acc) ∧ n.id = Piece.stepId k := by
  have hnode : (Building.of acc).nodes[k]? = some (acc.node (acc.steps[k], k)) := by
    rw [Building.of, Piece.getElem?_nodes, List.getElem?_eq_getElem hk, Option.map_some]
  refine ⟨acc.node (acc.steps[k], k), ?_, rfl⟩
  unfold node
  rw [hnode]

/-- An edge between two steps that have been built is found at their places. -/
theorem edgeBetween_of {source target : Nat} (hsource : source < acc.steps.length)
    (htarget : target < acc.steps.length) (type : EdgeType) (label : Option String) :
    edgeBetween type label source target (.of acc) =
      .ok (Piece.edge ⟨source, target, type, label⟩, .of acc) := by
  obtain ⟨first, hfirst, hfirstId⟩ := exists_node hsource
  obtain ⟨second, hsecond, hsecondId⟩ := exists_node htarget
  rw [edgeBetween, bind_of_eq_ok hfirst, bind_of_eq_ok hsecond, hfirstId, hsecondId]
  rfl

/-- A step that only looks something up does so for every member of a list. -/
theorem mapM_of_forall {f : α → Builder β} {g : α → β} {b : Building} {items : List α}
    (h : ∀ a ∈ items, f a b = .ok (g a, b)) : items.mapM f b = .ok (items.map g, b) := by
  induction items with
  | nil => rfl
  | cons a rest ih =>
    obtain ⟨ha, hrest⟩ := List.forall_mem_cons.1 h
    rw [List.mapM_cons, bind_of_eq_ok ha, bind_of_eq_ok (ih hrest)]
    rfl

/-- Edges are inserted behind those of the first part. -/
theorem insertEdges_of (edges : List StepEdge) :
    insertEdges acc.edges.length (edges.map Piece.edge) (.of (acc.beside piece)) =
      .ok ((), .of (acc.beside { piece with edges := edges ++ piece.edges })) := by
  have hedges : (Building.of (acc.beside piece)).edges =
      acc.edges.map Piece.edge ++ piece.edges.map Piece.edge := List.map_append
  have hlength : acc.edges.length = (acc.edges.map Piece.edge).length := by rw [List.length_map]
  unfold insertEdges
  rw [hedges, hlength, List.take_left, List.drop_left, if_pos (by simp)]
  simp only [Building.of, Piece.beside, List.map_append, List.append_assoc]
  rfl

/-- **Steps of the piece are connected behind the edges of its first part.** -/
theorem connectAt_of {sources targets : List Nat} {type : EdgeType} {label : Option String}
    (hsources : ∀ k ∈ sources, k < (acc.beside piece).steps.length)
    (htargets : ∀ k ∈ targets, k < (acc.beside piece).steps.length) :
    connectAt acc.edges.length sources targets type label (.of (acc.beside piece)) =
      .ok ((), .of (acc.beside { piece with
        edges := joinAll sources targets type label ++ piece.edges })) := by
  have hedges : (sources.mapM fun source => targets.mapM (edgeBetween type label source))
      (.of (acc.beside piece)) = .ok (sources.map fun source => targets.map fun target =>
        Piece.edge ⟨source, target, type, label⟩, .of (acc.beside piece)) := by
    refine mapM_of_forall fun source hsource => mapM_of_forall fun target htarget => ?_
    exact edgeBetween_of (hsources source hsource) (htargets target htarget) type label
  have hflatten : (sources.map fun source => targets.map fun target =>
      Piece.edge ⟨source, target, type, label⟩).flatten =
        (joinAll sources targets type label).map Piece.edge := by
    rw [joinAll, List.map_flatMap, List.flatMap_def]
    simp only [List.map_map, Function.comp_def]
  rw [connectAt, bind_of_eq_ok hedges, hflatten]
  exact insertEdges_of _

/-- A step that starts a branch becomes a branch point. -/
theorem promote_of {k : Nat} (hk : k < acc.steps.length) :
    promote k (.of acc) = .ok ((), .of { acc with branchPoints := acc.branchPoints ++ [k] }) := by
  obtain ⟨found, hfound⟩ : ∃ n, (Building.of acc).nodes[k]? = some n :=
    ⟨_, List.getElem?_eq_getElem (by rw [Building.of, Piece.length_nodes]; exact hk)⟩
  unfold promote
  rw [hfound]
  dsimp only
  rw [Except.ok.injEq, Prod.mk.injEq]
  refine ⟨rfl, ?_⟩
  rw [Building.of, Building.of, Building.mk.injEq]
  refine ⟨List.ext_getElem? fun i => ?_, rfl⟩
  rw [List.getElem?_modify, Piece.getElem?_nodes, Piece.getElem?_nodes, Option.map_eq_map,
    Option.map_map]
  congr 1
  funext label
  simp only [Function.comp_apply, Piece.node, retype]
  by_cases hprocess : classify label = .process
  · rw [Piece.stepType_of_process hprocess, Piece.stepType_of_process hprocess]
    grind
  · rw [Piece.stepType_of_ne hprocess, Piece.stepType_of_ne hprocess, if_neg hprocess, ite_self]

/-- Several steps are promoted one after the other. -/
theorem forM_promote_of {points : List Nat} (hpoints : ∀ k ∈ points, k < acc.steps.length) :
    points.forM promote (.of acc) =
      .ok ((), .of { acc with branchPoints := acc.branchPoints ++ points }) := by
  induction points generalizing acc with
  | nil =>
    rw [List.append_nil]
    rfl
  | cons k rest ih =>
    obtain ⟨hk, hrest⟩ := List.forall_mem_cons.1 hpoints
    have hlater := @ih { acc with branchPoints := acc.branchPoints ++ [k] } hrest
    rw [List.append_assoc, List.singleton_append] at hlater
    show (promote k >>= fun _ => rest.forM promote) (.of acc) = _
    rw [bind_of_eq_ok (promote_of hk), hlater]

/-- The node of a step is appended; nothing branches at it yet. -/
theorem addStep_of (h : acc.IsBuilt) (label : String) :
    addStep label (.of acc) = .ok (⟨[acc.steps.length], [acc.steps.length]⟩,
      .of (acc.beside (.step acc.steps.length label))) := by
  have hnew : acc.steps.length ∉ acc.branchPoints := fun hk => absurd (h _ hk) (Nat.lt_irrefl _)
  have htype := Piece.stepType_of_not_mem hnew label
  have hnode : (acc.beside (.step acc.steps.length label)).node = acc.node :=
    Piece.node_congr fun k => by simp [Piece.beside, Piece.step]
  have hnodes : (acc.beside (.step acc.steps.length label)).nodes =
      acc.nodes ++ [acc.node (label, acc.steps.length)] := by
    rw [Piece.nodes, hnode, Piece.nodes]
    simp [Piece.beside, Piece.step, List.zipIdx_append]
  have hedges : (acc.beside (.step acc.steps.length label)).edges = acc.edges := List.append_nil _
  unfold addStep Building.of
  rw [hnodes, hedges, Piece.length_nodes, Piece.node, htype]

/-- **The edges into an item go before those of the item**, and its branch points are noted. -/
theorem enter_of (hfront : front.Below acc.steps.length)
    (hentries : ∀ k ∈ first.entries, k < acc.steps.length + first.steps.length) :
    enter front label acc.edges.length first.entries (.of (acc.beside first)) =
      .ok ((), .of (acc.beside (.follow front label first {}))) := by
  have hlength : (acc.beside first).steps.length = acc.steps.length + first.steps.length :=
    List.length_append
  have hsources : ∀ k ∈ front.sources label, k < (acc.beside first).steps.length := by
    intro k hk
    rw [hlength]
    exact Nat.lt_add_right _ (hfront.sources label k hk)
  rw [← hlength] at hentries
  cases label with
  | none =>
    have hexits : ∀ k ∈ front.exits, k < (acc.beside first).steps.length := hsources
    unfold enter
    dsimp only
    rw [connectAt_of hexits hentries]
    congr 2
    refine Building.of_congr ?_ ?_ fun k => ?_
    · simp [Piece.beside, Piece.follow]
    · simp [Piece.beside, Piece.follow]
    · simp [Piece.beside, Piece.follow]
  | some label =>
    have hpoints : ∀ k ∈ front.branched.points, k < (acc.beside first).steps.length := hsources
    have hpromoted : Building.of { acc.beside first with
        branchPoints := (acc.beside first).branchPoints ++ front.branched.points } =
          .of (acc.beside { first with
            branchPoints := first.branchPoints ++ front.branched.points }) :=
      Building.of_congr rfl rfl fun k => by simp [Piece.beside]
    unfold enter
    dsimp only
    rw [bind_of_eq_ok (forM_promote_of hpoints), hpromoted]
    refine (connectAt_of ?_ ?_).trans ?_
    · exact hpoints
    · exact hentries
    congr 2
    refine Building.of_congr ?_ ?_ fun k => ?_
    · simp [Piece.beside, Piece.follow]
    · simp [Piece.beside, Piece.follow]
    · simp only [Piece.beside, Piece.follow, List.mem_append, Option.isSome_some, if_true]
      tauto

end Builder

/-! ## Along the tree

The recursion is that of the tree. Its invariant is that the lists hold the nodes and edges of the piece
`acc` that was built before: what is built next leaves those of `acc` beside the piece of its own. -/

/-- What building comes to where a piece is assembled: what is returned of the piece, with the nodes
and edges of what was built around it, or the fault. -/
def outcome (whole : Piece → Piece) (f : Piece → α) (result : Except FlowFault Piece) :
    Except BuildStop (α × Building) :=
  (result.map fun piece => (f piece, .of (whole piece))).mapError .fault

/-- The construction of a piece that there is has its outcome. -/
theorem outcome_ok (whole : Piece → Piece) (f : Piece → α) (piece : Piece) :
    outcome whole f (.ok piece) = .ok (f piece, .of (whole piece)) := rfl

/-- The construction of a piece that there is not stops with its fault. -/
theorem outcome_error (whole : Piece → Piece) (f : Piece → α) (fault : FlowFault) :
    outcome whole f (.error fault) = .error (.fault fault) := rfl

/-- Building goes on where assembly goes on. -/
theorem outcome_bind {r : Builder α} {next : α → Builder β} {b : Building} {whole whole' : Piece → Piece}
    {f : Piece → α} {g : Piece → β} {result : Except FlowFault Piece}
    {rest : Piece → Except FlowFault Piece} (hr : r b = outcome whole f result)
    (hnext : ∀ first, result = .ok first →
      next (f first) (.of (whole first)) = outcome whole' g (rest first)) :
    (r >>= next) b = outcome whole' g (result >>= rest) := by
  cases result with
  | error fault =>
    rw [outcome_error] at hr
    rw [bind_of_eq_error hr]
    rfl
  | ok first =>
    rw [outcome_ok] at hr
    rw [bind_of_eq_ok hr]
    exact hnext first rfl

/-- The ends of a piece. -/
def Piece.ends (piece : Piece) : Ends := ⟨piece.entries, piece.exits⟩

/-! Parts that are built one behind the other are the piece of both. -/

/-- Pieces beside each other are built in either grouping. -/
theorem Building.of_beside_beside (acc first second : Piece) :
    Building.of ((acc.beside first).beside second) = .of (acc.beside (first.beside second)) := by
  simp only [of, Piece.beside, List.append_assoc]

/-- What follows a front is built before the links behind it. -/
theorem Building.of_follow (acc : Piece) (front : Front) (label : Option BranchLabel)
    (first rest : Piece) :
    Building.of ((acc.beside (.follow front label first {})).beside rest) =
      .of (acc.beside (.follow front label first rest)) :=
  of_congr (by simp [Piece.beside, Piece.follow]) (by simp [Piece.beside, Piece.follow])
    (by simp [Piece.beside, Piece.follow])

/-- The first item of a chain is entered from nowhere, which adds no edges. -/
theorem Building.of_continued (acc first rest : Piece) :
    Building.of ((acc.beside (.follow ⟨[], none⟩ none first {})).beside rest) =
      .of (acc.beside (first.continued rest)) :=
  of_congr (by simp [Piece.beside, Piece.follow, Piece.continued])
    (by simp [Piece.beside, Piece.follow, Piece.continued, joinAll])
    (by simp [Piece.beside, Piece.follow, Piece.continued])

/-- The links behind an item start at the number behind its steps. -/
theorem Piece.length_beside_follow (acc : Piece) (front : Front) (label : Option BranchLabel)
    (first : Piece) :
    (acc.beside (.follow front label first {})).steps.length =
      acc.steps.length + first.steps.length := by
  simp [beside, follow]

/-- The piece of a chain may stand beside what has been built. -/
theorem Piece.IsBuilt.beside_chain {chain : Chain} (h : acc.IsBuilt)
    (hpiece : chain.piece acc.steps.length = .ok piece) : (acc.beside piece).IsBuilt :=
  h.beside ((isKept_haveKinds.chain _ chain hpiece).points_lt (isKept_below.chain _ chain hpiece))

/-- What was built with an item and the edges into it branches at steps that it has. -/
theorem Piece.IsBuilt.beside_follow {item : Item} (h : acc.IsBuilt) (hfront : front.Below acc.steps.length)
    (label : Option BranchLabel) (hpiece : item.piece acc.steps.length = .ok first) :
    (acc.beside (.follow front label first {})).IsBuilt := by
  have hbelow := isKept_below.item _ item hpiece
  refine h.beside fun k hk => ?_
  have hsteps : (Piece.follow front label first {}).steps = first.steps := List.append_nil _
  rw [hsteps]
  simp only [Piece.follow, List.append_nil, List.mem_append] at hk
  rcases hk with hk | hk
  · split at hk
    · exact Nat.lt_add_right _ (hfront.branched.1 k hk)
    · exact absurd hk List.not_mem_nil
  · exact (isKept_haveKinds.item _ item hpiece).points_lt hbelow k hk

/-- **An item behind a front is built with the edges into it.** -/
theorem buildBehind_of {item : Item} (hfront : front.Below acc.steps.length)
    (label : Option BranchLabel)
    (hitem : item.build (.of acc) = outcome acc.beside Piece.ends (item.piece acc.steps.length)) :
    buildBehind front label item.build (.of acc) =
      outcome (fun first => acc.beside (.follow front label first {})) Piece.ends
        (item.piece acc.steps.length) := by
  have hreached : position (.of acc) = .ok (acc.edges.length, .of acc) := by
    rw [position, Building.of, List.length_map]
  rw [buildBehind, bind_of_eq_ok hreached, ← bind_pure (item.piece acc.steps.length)]
  refine outcome_bind hitem fun first hfirst => ?_
  rw [Piece.ends, bind_of_eq_ok (enter_of hfront (isKept_below.item _ item hfirst).entries)]
  rfl

/-- **A loop is joined behind the edges of its body.** -/
theorem connectAt_loopBack_of (hbelow : piece.Below (acc.steps.length + piece.steps.length))
    (label : Option String) :
    connectAt (Building.of (acc.beside piece)).edges.length piece.exits piece.entries .loopBack label
        (.of (acc.beside piece)) = .ok ((), .of (acc.beside (piece.repeated label))) := by
  have hlength : ((acc.beside piece).beside {}).steps.length =
      acc.steps.length + piece.steps.length := by simp [Piece.beside]
  have hedges : (Building.of (acc.beside piece)).edges.length = (acc.beside piece).edges.length :=
    List.length_map _
  have hnone : Building.of (acc.beside piece) = .of ((acc.beside piece).beside {}) :=
    Building.of_congr (by simp [Piece.beside]) (by simp [Piece.beside]) (by simp [Piece.beside])
  rw [hedges, hnone, connectAt_of]
  · congr 2
    exact Building.of_congr (by simp [Piece.beside, Piece.repeated])
      (by simp [Piece.beside, Piece.repeated]) (by simp [Piece.beside, Piece.repeated])
  · rw [hlength]
    exact hbelow.exits
  · rw [hlength]
    exact hbelow.entries

mutual

/-- **An item is built as the piece that it comes to.** -/
theorem Item.build_eq (item : Item) {acc : Piece} (h : acc.IsBuilt) :
    item.build (.of acc) = outcome acc.beside Piece.ends (item.piece acc.steps.length) := by
  cases item with
  | step label =>
    unfold Item.build Item.piece
    rw [addStep_of h]
    rfl
  | parallel lanes =>
    unfold Item.build Item.piece
    exact Lanes.build_eq lanes h
  | loop label body =>
    unfold Item.build Item.piece
    refine outcome_bind (Chain.build_eq body h) fun inner hinner => ?_
    have hreached : position (.of (acc.beside inner)) =
        .ok ((Building.of (acc.beside inner)).edges.length, .of (acc.beside inner)) := rfl
    rw [bind_of_eq_ok hreached, Piece.ends,
      bind_of_eq_ok (connectAt_loopBack_of (isKept_below.chain _ body hinner) label)]
    rfl

/-- **A chain is built as its piece says**, beside what is there. -/
theorem Chain.build_eq (chain : Chain) {acc : Piece} (h : acc.IsBuilt) :
    chain.build (.of acc) = outcome acc.beside Piece.ends (chain.piece acc.steps.length) := by
  obtain ⟨_ | label, item, links⟩ := chain
  · have hfront : Front.Below ⟨[], none⟩ acc.steps.length := ⟨by simp, by simp⟩
    unfold Chain.build Chain.piece
    refine outcome_bind (buildBehind_of hfront none (Item.build_eq item h)) fun first hfirst => ?_
    have hlength := acc.length_beside_follow ⟨[], none⟩ none first
    have hbehind : Front.Below ⟨first.exits, none⟩ (acc.steps.length + first.steps.length) :=
      ⟨(isKept_below.item _ item hfirst).exits, by simp⟩
    have hlinks := Links.build_eq links (h.beside_follow hfront none hfirst) (hlength ▸ hbehind)
    rw [hlength] at hlinks
    refine outcome_bind hlinks fun rest _ => ?_
    rw [Building.of_continued]
    rfl
  · unfold Chain.build Chain.piece
    rfl

/-- **Links are built as their piece says**, behind a front that has been built. -/
theorem Links.build_eq (links : Links) {acc : Piece} {front : Front} (h : acc.IsBuilt)
    (hfront : front.Below acc.steps.length) :
    links.build front (.of acc) =
      outcome acc.beside Piece.exits (links.piece acc.steps.length front) := by
  cases links with
  | nil =>
    unfold Links.build Links.piece
    have hnone : Building.of (acc.beside { exits := front.allExits }) = .of acc :=
      Building.of_congr (by simp [Piece.beside]) (by simp [Piece.beside]) (by simp [Piece.beside])
    rw [outcome_ok, hnone]
    rfl
  | next merges label item links =>
    unfold Links.build Links.piece
    dsimp only
    have hmerged : (if merges then front.merged else front).Below acc.steps.length := by
      split
      · exact hfront.merged
      · exact hfront
    generalize (if merges then front.merged else front) = front at hmerged
    refine outcome_bind (buildBehind_of hmerged label (Item.build_eq item h)) fun first hfirst => ?_
    have hlength := acc.length_beside_follow front label first
    have hbehind : (front.advance label first.exits).Below (acc.steps.length + first.steps.length) :=
      (hmerged.mono (Nat.le_add_right _ _)).advance label (isKept_below.item _ item hfirst).exits
    have hlinks := Links.build_eq links (h.beside_follow hmerged label hfirst) (hlength ▸ hbehind)
    rw [hlength] at hlinks
    rw [← bind_pure (links.build _)]
    refine outcome_bind hlinks fun rest _ => ?_
    rw [Building.of_follow]
    rfl

/-- **Lanes are built as their piece says**, one beside the other. -/
theorem Lanes.build_eq (lanes : Lanes) {acc : Piece} (h : acc.IsBuilt) :
    lanes.build (.of acc) = outcome acc.beside Piece.ends (lanes.piece acc.steps.length) := by
  cases lanes with
  | last lane =>
    unfold Lanes.build Lanes.piece
    exact Chain.build_eq lane h
  | cons lane lanes =>
    unfold Lanes.build Lanes.piece
    refine outcome_bind (Chain.build_eq lane h) fun first hfirst => ?_
    have hlength : (acc.beside first).steps.length = acc.steps.length + first.steps.length :=
      List.length_append
    have hlanes := Lanes.build_eq lanes (h.beside_chain hfirst)
    rw [hlength] at hlanes
    refine outcome_bind hlanes fun rest _ => ?_
    rw [Building.of_beside_beside]
    rfl

end

/-- **Building in place comes to the same as assembling pieces.** -/
theorem build_eq (options : Options) (flow : Option Chain) :
    build options flow = (assemble options flow).mapError .fault := by
  cases flow with
  | none =>
    unfold build assemble
    rw [Option.elim_none, Option.any_none, Bool.and_false]
    dsimp only [bind, Except.bind, pure, StateT.pure, Except.pure]
    rw [if_neg Bool.false_ne_true]
    cases options.diagram [] [] <;> rfl
  | some chain =>
    have hnone : Building.of {} = {} := rfl
    have hlength : ({} : Piece).steps.length = 0 := rfl
    have hempty : ({} : Piece).IsBuilt := List.forall_mem_nil _
    have hchain := Chain.build_eq chain hempty
    rw [hnone, hlength] at hchain
    unfold build assemble
    dsimp only
    rw [Option.elim_some, Option.any_some, hchain]
    cases chain.piece 0 with
    | error fault => rfl
    | ok piece =>
      have hpiece : Building.of (({} : Piece).beside piece) = ⟨piece.nodes, piece.edges.map Piece.edge⟩ :=
        rfl
      rw [outcome_ok, hpiece]
      dsimp only [bind, Except.bind]
      cases options.diagram _ (piece.edges.map Piece.edge) <;> rfl

/-! ## What can stop a construction -/

/-- **Only a branch without a decision stops a construction**: the first one in the flow. -/
theorem build_eq_error_iff {options : Options} {flow : Option Chain} {reason : BuildStop} :
    build options flow = .error reason ↔ ∃ label,
      (chainsOf flow).findSome? Chain.leadingLabel? = some label ∧
        reason = .fault (.leadingBranch label.span) := by
  rw [build_eq]
  constructor
  · intro h
    cases hassemble : assemble options flow with
    | error fault =>
      rw [hassemble] at h
      obtain ⟨label, hlabel, rfl⟩ := Option.map_eq_some_iff.1
        ((assemble_eq_error_iff_leadingFault options flow fault).1 hassemble)
      exact ⟨label, hlabel, (Except.error.inj h).symm⟩
    | ok d =>
      rw [hassemble] at h
      exact absurd h (by simp [Except.mapError])
  · rintro ⟨label, hlabel, rfl⟩
    rw [(assemble_eq_error_iff_leadingFault options flow _).2 (Option.map_eq_some_iff.2
      ⟨label, hlabel, rfl⟩)]
    rfl

/-- What is true of building a flow in place: it never looks up a node or a place that is not there,
no node is refused, and it fails exactly if a chain has a label in front. -/
structure IsSafelyBuilt (options : Options) (flow : Option Chain) : Prop where
  hasNode : ∀ index, build options flow ≠ .error (.noNode index)
  hasPlace : ∀ position, build options flow ≠ .error (.noPlace position)
  takesNodes : ∀ error, build options flow ≠ .error (.fault (.refusedNode error))
  fails_iff : (∃ reason, build options flow = .error reason) ↔
    ∃ chain ∈ chainsOf flow, chain.leadingLabel? ≠ none
  code : ∀ reason, build options flow = .error reason → ∃ fault, reason = .fault fault ∧
    ∀ sourceEnd, (fault.diagnostic sourceEnd).code.map ErrorCode.name = some "E104"

/-- **Only a label in front of a chain stops the construction of a flow.** -/
theorem build_isSafe (options : Options) (flow : Option Chain) :
    IsSafelyBuilt options flow ∧
      build options flow = (assemble options flow).mapError BuildStop.fault := by
  refine ⟨⟨fun index h => ?_, fun position h => ?_, fun error h => ?_, ?_, fun reason h => ?_⟩,
    build_eq options flow⟩
  · obtain ⟨label, -, hstop⟩ := build_eq_error_iff.1 h
    exact absurd hstop (by simp)
  · obtain ⟨label, -, hstop⟩ := build_eq_error_iff.1 h
    exact absurd hstop (by simp)
  · obtain ⟨label, -, hstop⟩ := build_eq_error_iff.1 h
    exact absurd hstop (by simp)
  · constructor
    · rintro ⟨reason, h⟩
      obtain ⟨label, hlabel, -⟩ := build_eq_error_iff.1 h
      obtain ⟨chain, hchain, hleading⟩ := List.exists_of_findSome?_eq_some hlabel
      exact ⟨chain, hchain, by simp [hleading]⟩
    · rintro ⟨chain, hchain, hleading⟩
      obtain ⟨label, hlabel⟩ : ∃ label, (chainsOf flow).findSome? Chain.leadingLabel? = some label :=
        Option.ne_none_iff_exists'.1 fun hnone =>
          hleading (List.findSome?_eq_none_iff.1 hnone chain hchain)
      exact ⟨_, build_eq_error_iff.2 ⟨label, hlabel, rfl⟩⟩
  · obtain ⟨label, -, rfl⟩ := build_eq_error_iff.1 h
    exact ⟨_, rfl, fun _ => rfl⟩

/-- The loop body in `Check -> loop([no] Repair)` has a label in front. -/
example : build {} (some (.start none (.step "Check") (.next false none
      (.loop none (.start (some ⟨"no", .ofRange 14 18⟩) (.step "Repair") .nil)) .nil))) =
    .error (.fault (.leadingBranch (.ofRange 14 18))) := rfl

end Flowchart.Flow
