import Flowchart.Flow.Reading
import Flowchart.Proofs.Diagram
import Flowchart.Proofs.Flow.Pieces

/-!
# What the reader of flow text accepts

The steps of a flow are numbered as they are written, so every edge of a piece joins steps whose
numbers lie below that of the next step (`Piece.Below`). This is kept along the tree, where the
front of a chain names only steps that were numbered before. So **the diagram of a flow is valid**,
and every node has an id.
-/

namespace Flowchart.Flow

/-! ## Steps below a number -/

/-- All steps that the edges, entries and exits of a piece name have smaller numbers. -/
structure Piece.Below (piece : Piece) (bound : Nat) : Prop where
  edges : ∀ e ∈ piece.edges, e.source < bound ∧ e.target < bound
  entries : ∀ k ∈ piece.entries, k < bound
  exits : ∀ k ∈ piece.exits, k < bound

/-- All steps that a front names have smaller numbers. -/
structure Front.Below (front : Front) (bound : Nat) : Prop where
  exits : ∀ k ∈ front.exits, k < bound
  fork : ∀ fork ∈ front.fork, (∀ k ∈ fork.points, k < bound) ∧ ∀ k ∈ fork.finished, k < bound

variable {bound bound' : Nat} {piece first second item rest : Piece} {front : Front}

/-- A piece stays below a greater number. -/
theorem Piece.Below.mono (h : piece.Below bound) (hle : bound ≤ bound') : piece.Below bound' where
  edges e he := by
    obtain ⟨hsource, htarget⟩ := h.edges e he
    exact ⟨by omega, by omega⟩
  entries k hk := Nat.lt_of_lt_of_le (h.entries k hk) hle
  exits k hk := Nat.lt_of_lt_of_le (h.exits k hk) hle

/-- A front stays below a greater number. -/
theorem Front.Below.mono (h : front.Below bound) (hle : bound ≤ bound') : front.Below bound' where
  exits k hk := Nat.lt_of_lt_of_le (h.exits k hk) hle
  fork f hf := by
    obtain ⟨hpoints, hfinished⟩ := h.fork f hf
    exact ⟨fun k hk => Nat.lt_of_lt_of_le (hpoints k hk) hle,
      fun k hk => Nat.lt_of_lt_of_le (hfinished k hk) hle⟩

/-- Joined steps are below the number if both sides are. -/
theorem joinAll_below {sources targets : List Nat} {type : EdgeType} {label : Option String}
    (hsources : ∀ k ∈ sources, k < bound) (htargets : ∀ k ∈ targets, k < bound) :
    ∀ e ∈ joinAll sources targets type label, e.source < bound ∧ e.target < bound := by
  intro e he
  obtain ⟨hsource, htarget, -, -⟩ := mem_joinAll.1 he
  exact ⟨hsources _ hsource, htargets _ htarget⟩

/-- A step is below the next number. -/
theorem Piece.below_step (number : Nat) (label : String) :
    (Piece.step number label).Below (number + 1) where
  edges := List.forall_mem_nil _
  entries k hk := by
    rw [List.mem_singleton.1 hk]
    omega
  exits k hk := by
    rw [List.mem_singleton.1 hk]
    omega

/-- Pieces beside each other are below the number that both are below. -/
theorem Piece.Below.beside (hfirst : first.Below bound) (hsecond : second.Below bound) :
    (first.beside second).Below bound where
  edges := List.forall_mem_append.2 ⟨hfirst.edges, hsecond.edges⟩
  entries := List.forall_mem_append.2 ⟨hfirst.entries, hsecond.entries⟩
  exits := List.forall_mem_append.2 ⟨hfirst.exits, hsecond.exits⟩

/-- Repeating a piece uses no new steps. -/
theorem Piece.Below.repeated (h : piece.Below bound) (label : Option String) :
    (piece.repeated label).Below bound where
  edges := List.forall_mem_append.2 ⟨h.edges, joinAll_below h.exits h.entries⟩
  entries := h.entries
  exits := h.exits

/-- Merging a front uses no new steps. -/
theorem Front.Below.merged (h : front.Below bound) : front.merged.Below bound := by
  unfold Front.merged
  split
  · next fork hfork =>
    exact ⟨List.forall_mem_append.2 ⟨(h.fork fork hfork).2, h.exits⟩, by simp⟩
  · exact h

/-- Its exits and what its branches have finished are all below. -/
theorem Front.Below.allExits (h : front.Below bound) : ∀ k ∈ front.allExits, k < bound := by
  unfold Front.allExits
  cases hfork : front.fork with
  | none => exact List.forall_mem_append.2 ⟨List.forall_mem_nil _, h.exits⟩
  | some fork => exact List.forall_mem_append.2 ⟨(h.fork fork hfork).2, h.exits⟩

/-- A front that branches keeps its steps. -/
theorem Front.Below.branched (h : front.Below bound) :
    (∀ k ∈ front.branched.points, k < bound) ∧ ∀ k ∈ front.branched.finished, k < bound := by
  unfold Front.branched
  split
  · next fork hfork =>
    obtain ⟨hpoints, hfinished⟩ := h.fork fork hfork
    exact ⟨hpoints, List.forall_mem_append.2 ⟨hfinished, h.exits⟩⟩
  · exact ⟨h.exits, List.forall_mem_nil _⟩

/-- Behind an item the front is below if the exits of the item are. -/
theorem Front.Below.advance (h : front.Below bound) (label : Option BranchLabel) {exits : List Nat}
    (hexits : ∀ k ∈ exits, k < bound) : (front.advance label exits).Below bound where
  exits := hexits
  fork := by
    intro fork hfork
    unfold Front.advance at hfork
    dsimp only at hfork
    split at hfork
    · obtain rfl : front.branched = fork := by simpa using hfork
      exact h.branched
    · exact h.fork fork hfork

/-- What a front goes on from is below the number. -/
theorem Front.Below.sources (h : front.Below bound) (label : Option BranchLabel) :
    ∀ k ∈ front.sources label, k < bound := by
  unfold Front.sources
  split
  · exact h.branched.1
  · exact h.exits

/-- **A piece behind a front stays below**: its edges lead between steps of the front, the item and
the rest. -/
theorem Piece.Below.follow (hfront : front.Below bound) (label : Option BranchLabel)
    (hitem : item.Below bound) (hrest : rest.Below bound) :
    (Piece.follow front label item rest).Below bound where
  edges := by
    rw [edges_follow]
    refine List.forall_mem_append.2 ⟨List.forall_mem_append.2 ⟨?_, hitem.edges⟩, hrest.edges⟩
    exact joinAll_below (hfront.sources label) hitem.entries
  entries := List.forall_mem_nil _
  exits := hrest.exits

/-! ## Along the tree -/

/-- **A piece names steps of its own**, and behind a front also those that the front names. -/
theorem isKept_below :
    IsKept (fun number _ piece => piece.Below (number + piece.steps.length))
      (fun number _ piece => piece.Below (number + piece.steps.length))
      (fun number front _ piece => front.Below number → piece.Below (number + piece.steps.length))
      (fun number _ piece => piece.Below (number + piece.steps.length)) where
  step := Piece.below_step
  parallel _ _ _ h := h
  loop _ label _ _ _ h := h.repeated label
  start number _ _ first rest _ hfirst hrest := by
    have hlength : (first.continued rest).steps.length = first.steps.length + rest.steps.length :=
      List.length_append
    rw [hlength, ← Nat.add_assoc]
    have hitem := hfirst.mono (Nat.le_add_right _ rest.steps.length)
    have hlater := hrest ⟨hfirst.exits, by simp⟩
    exact ⟨(hitem.beside hlater).edges, hitem.entries, hlater.exits⟩
  nil _ _ hfront := ⟨List.forall_mem_nil _, List.forall_mem_nil _, hfront.allExits⟩
  next number front label _ _ first rest _ hfirst hrest hfront := by
    have hlength : (Piece.follow front label first rest).steps.length =
        first.steps.length + rest.steps.length := List.length_append
    rw [hlength, ← Nat.add_assoc]
    have hbehind : front.Below (number + first.steps.length) := hfront.mono (Nat.le_add_right _ _)
    exact .follow (hbehind.mono (Nat.le_add_right _ _)) label (hfirst.mono (Nat.le_add_right _ _))
      (hrest (hbehind.advance label hfirst.exits))
  merge _ _ _ _ _ _ h hfront := h hfront.merged
  last _ _ _ h := h
  cons number _ _ first rest hfirst hrest := by
    have hlength : (first.beside rest).steps.length = first.steps.length + rest.steps.length :=
      List.length_append
    rw [hlength, ← Nat.add_assoc]
    exact (hfirst.mono (Nat.le_add_right _ _)).beside hrest

/-! ## Diagrams -/

/-- A node that could be added has an id and comes last. -/
theorem addNode_eq_ok {d e : Diagram} {n : Node} (h : d.addNode n = .ok e) :
    n.id ≠ "" ∧ e.nodes = d.nodes ++ [n] ∧ e.edges = d.edges ∧ e.metadata = d.metadata := by
  rcases d.addNode_cases n with ⟨-, hrefused⟩ | ⟨-, -, hrefused⟩ | ⟨hne, -, added, hadd, hadded⟩
  · exact absurd (hrefused.symm.trans h) (by simp)
  · exact absurd (hrefused.symm.trans h) (by simp)
  · obtain rfl := Except.ok.inj (hadd.symm.trans h)
    exact ⟨hne, hadded⟩

/-- Nodes that could be added one after the other all have ids and come last, in order. -/
theorem foldlM_addNode_eq_ok {nodes : List Node} {d e : Diagram}
    (h : nodes.foldlM Diagram.addNode d = .ok e) :
    (∀ n ∈ nodes, n.id ≠ "") ∧ e.nodes = d.nodes ++ nodes ∧ e.edges = d.edges ∧
      e.metadata = d.metadata := by
  induction nodes generalizing d with
  | nil =>
    obtain rfl : d = e := Except.ok.inj h
    exact ⟨List.forall_mem_nil _, (List.append_nil _).symm, rfl, rfl⟩
  | cons n rest ih =>
    rw [List.foldlM_cons] at h
    obtain ⟨next, hnext, h⟩ := bind_eq_ok_iff.1 h
    obtain ⟨hne, hnodes, hedges, hmetadata⟩ := addNode_eq_ok hnext
    obtain ⟨hrest, hnodes', hedges', hmetadata'⟩ := ih h
    refine ⟨List.forall_mem_cons.2 ⟨hne, hrest⟩, ?_, hedges'.trans hedges,
      hmetadata'.trans hmetadata⟩
    rw [hnodes', hnodes, List.append_assoc, List.singleton_append]

/-- The metadata of a diagram of flow text: its title, if one is set. -/
def Options.metadata (options : Options) : Dictionary :=
  options.title.elim .empty (Dictionary.empty.insert Diagram.titleKey)

/-- The diagram of some nodes and edges has these, and no node is without an id. -/
theorem Options.diagram_eq_ok {options : Options} {nodes : List Node} {edges : List Edge}
    {d : Diagram} (h : options.diagram nodes edges = .ok d) :
    (∀ n ∈ nodes, n.id ≠ "") ∧ d.nodes = nodes ∧ d.edges = edges ∧
      d.metadata = options.metadata := by
  unfold Options.diagram at h
  dsimp only at h
  split at h
  · next e hfold =>
    obtain rfl := Except.ok.inj h
    obtain ⟨hne, hnodes, hedges, hmetadata⟩ := foldlM_addNode_eq_ok hfold
    -- a title adds neither nodes nor edges
    have hstart : e.nodes = nodes ∧ e.edges = [] ∧ e.metadata = options.metadata := by
      rw [hnodes, hedges, hmetadata, Options.metadata]
      cases options.title <;> exact ⟨rfl, rfl, rfl⟩
    refine ⟨hne, hstart.1, ?_, hstart.2.2⟩
    show e.edges ++ edges = edges
    rw [hstart.2.1, List.nil_append]
  · exact absurd h (by simp)

/-- Start and end of a flow change types only. -/
theorem map_withTerminals {α : Type} {f : Node → α} (hf : ∀ type n, f (retype type n) = f n)
    (nodes : List Node) : (withTerminals nodes).map f = nodes.map f := by
  have hmodify : ∀ (nodes : List Node) (i : Nat) (type : NodeType),
      (nodes.modify i (retype type)).map f = nodes.map f := by
    intro nodes i type
    induction nodes generalizing i with
    | nil => simp
    | cons n rest ih =>
      cases i with
      | zero => rw [List.modify_zero_cons, List.map_cons, List.map_cons, hf]
      | succ i => rw [List.modify_succ_cons, List.map_cons, List.map_cons, ih]
  rw [withTerminals, hmodify, hmodify]

/-- Terminal types leave the ids as they are. -/
theorem map_id_withTerminals (nodes : List Node) :
    (withTerminals nodes).map Node.id = nodes.map Node.id := by
  refine map_withTerminals (fun type n => ?_) nodes
  unfold retype
  split <;> rfl

/-- They leave the labels as they are. -/
theorem map_label_withTerminals (nodes : List Node) :
    (withTerminals nodes).map Node.label = nodes.map Node.label := by
  refine map_withTerminals (fun type n => ?_) nodes
  unfold retype
  split <;> rfl

/-- The nodes of a piece are named by the numbers of its steps. -/
theorem Piece.map_id_nodes (piece : Piece) :
    piece.nodes.map Node.id = (List.range piece.steps.length).map stepId := by
  rw [List.range_eq_range', ← List.zipIdx_map_snd 0 piece.steps, List.map_map, nodes, List.map_map]
  rfl

/-- Nodes and edges of a piece that names its own steps make a valid diagram. -/
theorem Piece.Below.validate (h : piece.Below piece.steps.length) {d : Diagram}
    (hids : d.ids = piece.nodes.map Node.id) (hedges : d.edges = piece.edges.map Piece.edge) :
    d.validate = .ok () := by
  have hmem : ∀ k < piece.steps.length, Piece.stepId k ∈ d.ids := by
    intro k hk
    rw [hids, Piece.map_id_nodes]
    exact List.mem_map_of_mem (List.mem_range.2 hk)
  rw [Diagram.validate_eq_ok_iff, hedges]
  refine List.forall_mem_map.2 fun e he => ?_
  obtain ⟨hsource, htarget⟩ := h.edges e he
  exact ⟨hmem e.source hsource, hmem e.target htarget⟩

/-- Changing the error changes no success. -/
theorem mapError_eq_ok {ε ε' α : Type} {f : ε → ε'} {result : Except ε α} {a : α}
    (h : result.mapError f = .ok a) : result = .ok a := by
  cases result with
  | error e => exact absurd h (by simp [Except.mapError])
  | ok b => simpa [Except.mapError] using h

/-- **The diagram of a flow is valid**, and every node has an id. -/
theorem assemble_accepted {options : Options} {flow : Option Chain} {d : Diagram}
    (h : assemble options flow = .ok d) : d.validate = .ok () ∧ ∀ n ∈ d.nodes, n.id ≠ "" := by
  cases flow with
  | none =>
    unfold assemble at h
    obtain ⟨hne, hnodes, hedges, -⟩ := Options.diagram_eq_ok (mapError_eq_ok h)
    refine ⟨?_, by rw [hnodes]; exact hne⟩
    rw [Diagram.validate_eq_ok_iff, hedges]
    exact List.forall_mem_nil _
  | some chain =>
    unfold assemble at h
    obtain ⟨piece, hpiece, h⟩ := bind_eq_ok_iff.1 h
    obtain ⟨hne, hnodes, hedges, -⟩ := Options.diagram_eq_ok (mapError_eq_ok h)
    have hbelow := isKept_below.chain 0 chain hpiece
    rw [Nat.zero_add] at hbelow
    refine ⟨hbelow.validate ?_ hedges, by rw [hnodes]; exact hne⟩
    rw [Diagram.ids, hnodes]
    split
    · exact map_id_withTerminals piece.nodes
    · rfl

/-! ## Sources -/

/-- The source is text of this flow. -/
def IsFlowOf (source : String) (flow : Option Chain) : Prop :=
  ∃ ts, tokens source.toList = .ok ts ∧ parse ts = .ok flow

/-- A source is accepted by way of its flow. -/
theorem exists_assemble_of_read {options : Options} {source : String} {d : Diagram}
    (h : read options source = .ok d) :
    ∃ flow, IsFlowOf source flow ∧ assemble options flow = .ok d := by
  unfold read at h
  split at h
  · exact absurd h (by simp)
  · next ts hts =>
    split at h
    · next e hok =>
      obtain rfl := Except.ok.inj h
      obtain ⟨flow, hflow, hassemble⟩ := bind_eq_ok_iff.1 hok
      exact ⟨flow, ⟨ts, hts, hflow⟩, hassemble⟩
    · exact absurd h (by simp)

/-- **What flow text gives is accepted**: no edge dangles, and no id is empty. -/
theorem read_accepted {options : Options} {source : String} {d : Diagram}
    (h : read options source = .ok d) : d.validate = .ok () ∧ ∀ n ∈ d.nodes, n.id ≠ "" := by
  obtain ⟨flow, -, hassemble⟩ := exists_assemble_of_read h
  exact assemble_accepted hassemble

end Flowchart.Flow
