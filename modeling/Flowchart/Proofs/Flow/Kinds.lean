import Flowchart.Proofs.Flow.Loops

/-!
# Types of nodes and edges in flow text

Branches start with a conditional edge, which carries the label of the branch; all other edges into an
item are plain and carry none. A piece notes at which steps it branches, and an item always has an
entry, so **these are exactly the steps that conditional edges leave**. The type of a node can therefore
be read off the finished diagram: it is that of the label, but a process with a conditional edge is a
decision.

With positional terminals the same flow is drawn, and at most the types of two nodes differ.
-/

namespace Flowchart.Flow

variable {piece first second : Piece} {options : Options}

/-! ## Conditional edges and branch points -/

/-- Conditional edges carry a label and plain ones do not, and they branch at the points that are
noted. -/
structure HaveKinds (edges : List StepEdge) (points : List Nat) : Prop where
  conditional : ∀ e ∈ edges, e.type = .conditional → e.label ≠ none
  plain : ∀ e ∈ edges, e.type = .plain → e.label = none
  mem_points_iff : ∀ k, k ∈ points ↔ ∃ e ∈ edges, e.type = .conditional ∧ e.source = k

theorem haveKinds_nil : HaveKinds [] [] := ⟨by simp, by simp, by simp⟩

/-- Edges of the right kinds may be put together, with their branch points. -/
theorem HaveKinds.append {edges more : List StepEdge} {points others : List Nat}
    (h : HaveKinds edges points) (hmore : HaveKinds more others) :
    HaveKinds (edges ++ more) (points ++ others) where
  conditional := List.forall_mem_append.2 ⟨h.conditional, hmore.conditional⟩
  plain := List.forall_mem_append.2 ⟨h.plain, hmore.plain⟩
  mem_points_iff k := by
    rw [List.mem_append, h.mem_points_iff, hmore.mem_points_iff]
    simp only [List.mem_append, or_and_right, exists_or]

/-- Ways back do not branch. -/
theorem haveKinds_joinAll_loopBack (sources targets : List Nat) (label : Option String) :
    HaveKinds (joinAll sources targets .loopBack label) [] := by
  have htype : ∀ e ∈ joinAll sources targets .loopBack label, e.type = .loopBack :=
    fun e he => (mem_joinAll.1 he).2.2.1
  refine ⟨fun e he h => ?_, fun e he h => ?_, fun k => ?_⟩
  · exact absurd ((htype e he).symm.trans h) (by decide)
  · exact absurd ((htype e he).symm.trans h) (by decide)
  · refine iff_of_false List.not_mem_nil ?_
    rintro ⟨e, he, h, -⟩
    exact absurd ((htype e he).symm.trans h) (by decide)

/-- **The edges into an item branch at their sources if it is labelled**, and else nowhere. -/
theorem haveKinds_edgesInto (front : Front) (label : Option BranchLabel) {entries : List Nat}
    (hentries : entries ≠ []) :
    HaveKinds (front.edgesInto label entries) (if label.isSome then front.branched.points else []) := by
  cases label with
  | none =>
    have hedge : ∀ e ∈ front.edgesInto none entries, e.type = .plain ∧ e.label = none :=
      fun e he => (mem_joinAll.1 he).2.2
    refine ⟨fun e he h => ?_, fun e he _ => (hedge e he).2, fun k => ?_⟩
    · exact absurd ((hedge e he).1.symm.trans h) (by decide)
    · refine iff_of_false List.not_mem_nil ?_
      rintro ⟨e, he, h, -⟩
      exact absurd ((hedge e he).1.symm.trans h) (by decide)
  | some label =>
    have hedge : ∀ e ∈ front.edgesInto (some label) entries,
        e.type = .conditional ∧ e.label = some label.value := fun e he => (mem_joinAll.1 he).2.2
    refine ⟨fun e he _ => ?_, fun e he h => ?_, fun k => ?_⟩
    · rw [(hedge e he).2]
      exact Option.some_ne_none _
    · exact absurd ((hedge e he).1.symm.trans h) (by decide)
    · obtain ⟨entry, hentry⟩ := List.exists_mem_of_ne_nil _ hentries
      constructor
      · intro hk
        exact ⟨⟨k, entry, .conditional, some label.value⟩, mem_joinAll.2 ⟨hk, hentry, rfl, rfl⟩,
          rfl, rfl⟩
      · rintro ⟨e, he, -, rfl⟩
        exact (mem_joinAll.1 he).1

/-- **Every piece notes the steps that its conditional edges leave.** -/
theorem isKept_haveKinds :
    IsKept (fun _ _ piece => HaveKinds piece.edges piece.branchPoints)
      (fun _ _ piece => HaveKinds piece.edges piece.branchPoints)
      (fun _ _ _ piece => HaveKinds piece.edges piece.branchPoints)
      (fun _ _ piece => HaveKinds piece.edges piece.branchPoints) where
  step _ _ := haveKinds_nil
  parallel _ _ _ h := h
  loop _ label _ piece _ h := by
    have hback := h.append (haveKinds_joinAll_loopBack piece.exits piece.entries label)
    rwa [List.append_nil] at hback
  start _ _ _ _ _ _ hfirst hrest := hfirst.append hrest
  nil _ _ := haveKinds_nil
  next number front label item _ first rest hpiece hfirst hrest := by
    have hentries := (Piece.isKept_connected.item number item hpiece).entries_ne_nil
    rw [Piece.edges_follow]
    exact ((haveKinds_edgesInto front label hentries).append hfirst).append hrest
  merge _ _ _ _ _ _ h := h
  last _ _ _ h := h
  cons _ _ _ _ _ hfirst hrest := hfirst.append hrest

/-! ## Types of nodes -/

/-- A conditional edge leaves the node. -/
def Branches (d : Diagram) (id : String) : Prop :=
  ∃ e ∈ d.edges, e.type = .conditional ∧ e.source = id

/-- Conditional edges carry a label, plain edges carry none, and the type of each node is that of its
label, except that a process that conditional edges leave is a decision. -/
structure IsConsistent (d : Diagram) : Prop where
  conditional : ∀ e ∈ d.edges, e.type = .conditional → e.label ≠ none
  plain : ∀ e ∈ d.edges, e.type = .plain → e.label = none
  decision : ∀ n ∈ d.nodes, classify n.label = .process → Branches d n.id → n.type = .decision
  otherwise : ∀ n ∈ d.nodes, ¬ (classify n.label = .process ∧ Branches d n.id) →
    n.type = classify n.label

theorem Piece.stepType_of_process {number : Nat} {label : String}
    (h : classify label = .process) :
    piece.stepType number label = if number ∈ piece.branchPoints then .decision else .process := by
  rw [stepType, h]
  simp only [List.contains_iff_mem]

theorem Piece.stepType_of_ne {number : Nat} {label : String} (h : classify label ≠ .process) :
    piece.stepType number label = classify label := by
  unfold stepType
  split
  · next hprocess => exact absurd hprocess h
  · rfl

theorem Piece.stepType_of_not_mem {number : Nat} (h : number ∉ piece.branchPoints) (label : String) :
    piece.stepType number label = classify label := by
  by_cases hprocess : classify label = .process
  · rw [stepType_of_process hprocess, if_neg h, hprocess]
  · exact stepType_of_ne hprocess

/-- **A diagram of such edges is consistent.** -/
theorem HaveKinds.isConsistent {d : Diagram} (h : HaveKinds piece.edges piece.branchPoints)
    (hnodes : d.nodes = piece.nodes) (hedges : d.edges = piece.edges.map Piece.edge) :
    IsConsistent d := by
  have hbranches : ∀ k, Branches d (Piece.stepId k) ↔ k ∈ piece.branchPoints := by
    intro k
    rw [h.mem_points_iff, Branches, hedges]
    simp only [List.mem_map, exists_exists_and_eq_and, Piece.edge, stepId_injective.eq_iff]
  refine ⟨?_, ?_, ?_, ?_⟩
  · rw [hedges]
    exact List.forall_mem_map.2 h.conditional
  · rw [hedges]
    exact List.forall_mem_map.2 h.plain
  · rw [hnodes, Piece.nodes]
    refine List.forall_mem_map.2 fun p _ hprocess hbranch => ?_
    exact (Piece.stepType_of_process hprocess).trans (if_pos ((hbranches p.2).1 hbranch))
  · rw [hnodes, Piece.nodes]
    refine List.forall_mem_map.2 fun p _ hno => ?_
    by_cases hprocess : classify p.1 = .process
    · have hpoint : p.2 ∉ piece.branchPoints := fun hp => hno ⟨hprocess, (hbranches p.2).2 hp⟩
      exact Piece.stepType_of_not_mem hpoint p.1
    · exact Piece.stepType_of_ne hprocess

/-! ## Positional terminals -/

/-- The second diagram is the first one, but if its first node is a process it is a start, and if its
last node is a process it is an end. -/
structure GainsTerminals (d e : Diagram) : Prop where
  edges : e.edges = d.edges
  metadata : e.metadata = d.metadata
  length : e.nodes.length = d.nodes.length
  first : e.nodes.head? = d.nodes.head?.map (retype .start)
  last : e.nodes.getLast? = d.nodes.getLast?.map (retype .finish)
  between : ∀ i, 0 < i → i + 1 < d.nodes.length → e.nodes[i]? = d.nodes[i]?

/-- Only the first and the last of two or more nodes get another type. -/
theorem getElem?_withTerminals {nodes : List Node} (hnodes : 2 ≤ nodes.length) (i : Nat) :
    (withTerminals nodes)[i]? = nodes[i]?.map fun n =>
      if i = 0 then retype .start n else if i + 1 = nodes.length then retype .finish n else n := by
  rw [withTerminals, List.getElem?_modify, List.getElem?_modify, Option.map_eq_map, Option.map_eq_map,
    Option.map_map]
  congr 1
  funext n
  simp only [Function.comp_apply]
  split_ifs <;> first | omega | rfl

/-- A diagram with terminal types gains nothing else. -/
theorem gainsTerminals {d e : Diagram} (hedges : e.edges = d.edges)
    (hmetadata : e.metadata = d.metadata) (hnodes : e.nodes = withTerminals d.nodes)
    (hlength : 2 ≤ d.nodes.length) : GainsTerminals d e := by
  have hcount : e.nodes.length = d.nodes.length := by
    rw [hnodes, withTerminals, List.length_modify, List.length_modify]
  refine ⟨hedges, hmetadata, hcount, ?_, ?_, fun i hpos hlt => ?_⟩
  · rw [List.head?_eq_getElem?, List.head?_eq_getElem?, hnodes, getElem?_withTerminals hlength]
    rfl
  · have hne : d.nodes.length - 1 ≠ 0 := by omega
    have hlast : d.nodes.length - 1 + 1 = d.nodes.length := by omega
    rw [List.getLast?_eq_getElem?, List.getLast?_eq_getElem?, hcount, hnodes,
      getElem?_withTerminals hlength]
    simp only [if_neg hne, if_pos hlast]
  · rw [hnodes, getElem?_withTerminals hlength]
    simp only [if_neg hpos.ne', if_neg hlt.ne, Option.map_id']

/-- A linear chain has two steps at least. -/
theorem Chain.two_le_length_steps {chain : Chain} (h : chain.isLinear = true) :
    2 ≤ chain.steps.length := by
  have hitem : ∀ {item : Item}, item.isStep = true → item.steps.length = 1 := by
    intro item hstep
    cases item with
    | step => rfl
    | parallel | loop => exact absurd hstep Bool.false_ne_true
  obtain ⟨label, item, links⟩ := chain
  simp only [isLinear, Bool.and_eq_true, decide_eq_true_eq] at h
  obtain ⟨⟨⟨-, hfirst⟩, hplain⟩, hne⟩ := h
  cases links with
  | nil => exact absurd rfl hne
  | next merges label next rest =>
    simp only [Links.isPlain, Bool.and_eq_true] at hplain
    rw [steps, Links.steps, List.length_append, List.length_append, hitem hfirst,
      hitem hplain.1.2]
    omega

/-- **Positional terminals change the diagram of a linear flow only**, and there the types of the first
and the last node. -/
theorem assemble_positionalTerminals (title : Option String) (flow : Option Chain) :
    assemble { title, positionalTerminals := true } flow =
        assemble { title, positionalTerminals := false } flow ∨
      ∃ chain d e, flow = some chain ∧ chain.isLinear = true ∧
        assemble { title, positionalTerminals := false } flow = .ok d ∧
        assemble { title, positionalTerminals := true } flow = .ok e ∧ GainsTerminals d e := by
  cases flow with
  | none => exact Or.inl rfl
  | some chain =>
    cases hpiece : chain.piece 0 with
    | error fault =>
      exact Or.inl ((assemble_eq_error_iff.2 hpiece).trans (assemble_eq_error_iff.2 hpiece).symm)
    | ok piece =>
      by_cases hlinear : chain.isLinear = true
      · obtain ⟨d, hd, hnodes, hedges, hmetadata⟩ :=
          exists_assemble_some { title, positionalTerminals := false } hpiece
        obtain ⟨e, he, hnodes', hedges', hmetadata'⟩ :=
          exists_assemble_some { title, positionalTerminals := true } hpiece
        have hplain : d.nodes = piece.nodes := hnodes
        have hlength : 2 ≤ d.nodes.length := by
          rw [hplain, Piece.nodes, List.length_map, List.length_zipIdx,
            isKept_steps.chain 0 chain hpiece]
          exact Chain.two_le_length_steps hlinear
        have hterminals : e.nodes = withTerminals d.nodes := by
          rw [hnodes', hplain, Options.drawnNodes, if_pos (by simp [hlinear])]
        exact Or.inr ⟨chain, d, e, rfl, hlinear, hd, he,
          gainsTerminals (hedges'.trans hedges.symm) (hmetadata'.trans hmetadata.symm) hterminals
            hlength⟩
      · left
        unfold assemble
        simp only [Bool.not_eq_true] at hlinear
        simp only [hlinear, Bool.and_false]
        rfl

/-! ## Sources -/

/-- Options matter where the flow of a source is drawn, and nowhere else. -/
theorem read_congr {options other : Options} {source : String}
    (h : ∀ flow, IsFlowOf source flow → assemble options flow = assemble other flow) :
    read options source = read other source := by
  unfold read
  split
  · rfl
  · next ts hts =>
    have hsame : ofTokens options ts = ofTokens other ts := by
      unfold ofTokens
      cases hparse : parse ts with
      | error fault => rfl
      | ok flow => exact h flow ⟨ts, hts, hparse⟩
    rw [hsame]

/-- A flow that is assembled is what its source gives. -/
theorem read_eq_ok {options : Options} {source : String} {flow : Option Chain} {d : Diagram}
    (hflow : IsFlowOf source flow) (hd : assemble options flow = .ok d) :
    read options source = .ok d := by
  obtain ⟨ts, hts, hparse⟩ := hflow
  have hdrawn : ofTokens options ts = .ok d := by
    rw [ofTokens, hparse]
    exact hd
  unfold read
  rw [hts]
  dsimp only
  rw [hdrawn]

/-- **Types of nodes and edges are consistent.** Without positional terminals, conditional edges carry
a label and plain edges carry none, and a node has the type of its label, but is a decision if it would
be a process and conditional edges leave it. With positional terminals the same comes out, accepted or
not, but in a chain of two or more plain steps a first process is a start and a last one an end. -/
theorem read_isConsistent (title : Option String) (source : String) :
    (∀ d, read { title, positionalTerminals := false } source = .ok d → IsConsistent d) ∧
      (read { title, positionalTerminals := true } source =
          read { title, positionalTerminals := false } source ∨
        ∃ chain d e, IsFlowOf source (some chain) ∧ chain.isLinear = true ∧
          read { title, positionalTerminals := false } source = .ok d ∧
          read { title, positionalTerminals := true } source = .ok e ∧ GainsTerminals d e) := by
  constructor
  · intro d hread
    obtain ⟨flow, -, hassemble⟩ := exists_assemble_of_read hread
    cases flow with
    | none =>
      obtain ⟨e, he, hnodes, hedges, -⟩ :=
        exists_assemble_none { title, positionalTerminals := false }
      obtain rfl := Except.ok.inj (he.symm.trans hassemble)
      have hkinds : HaveKinds ({} : Piece).edges ({} : Piece).branchPoints := haveKinds_nil
      exact hkinds.isConsistent hnodes hedges
    | some chain =>
      cases hpiece : chain.piece 0 with
      | error fault =>
        exact absurd ((assemble_eq_error_iff.2 hpiece).symm.trans hassemble) (by simp)
      | ok piece =>
        obtain ⟨e, he, hnodes, hedges, -⟩ :=
          exists_assemble_some { title, positionalTerminals := false } hpiece
        obtain rfl := Except.ok.inj (he.symm.trans hassemble)
        exact (isKept_haveKinds.chain 0 chain hpiece).isConsistent hnodes hedges
  · by_cases hlinear : ∃ chain d e, IsFlowOf source (some chain) ∧ chain.isLinear = true ∧
        assemble { title, positionalTerminals := false } (some chain) = .ok d ∧
        assemble { title, positionalTerminals := true } (some chain) = .ok e ∧ GainsTerminals d e
    · obtain ⟨chain, d, e, hflow, hlinear, hd, he, hgains⟩ := hlinear
      exact Or.inr ⟨chain, d, e, hflow, hlinear, read_eq_ok hflow hd, read_eq_ok hflow he, hgains⟩
    · refine Or.inl (read_congr fun flow hflow => ?_)
      obtain hsame | ⟨chain, d, e, rfl, hchain⟩ := assemble_positionalTerminals title flow
      · exact hsame
      · exact absurd ⟨chain, d, e, hflow, hchain⟩ hlinear

/-- Three steps whose labels mean nothing in particular. -/
def packing : String := "Receive -> Pack -> Ship"

theorem read_isConsistent_packing :
    ∃ d e, read { positionalTerminals := false } packing = .ok d ∧
      read { positionalTerminals := true } packing = .ok e ∧ IsConsistent d ∧ GainsTerminals d e ∧
      e.nodes.map Node.type = [.start, .process, .finish] := by
  have hplain : ((read { positionalTerminals := false } packing).toOption.map fun d =>
      d.nodes.map Node.type) = some [.process, .process, .process] := by decide +kernel
  have hterminals : ((read { positionalTerminals := true } packing).toOption.map fun e =>
      e.nodes.map Node.type) = some [.start, .process, .finish] := by decide +kernel
  obtain ⟨hconsistent, hsame | ⟨chain, d, e, -, -, hd, he, hgains⟩⟩ := read_isConsistent none packing
  · rw [hsame, hplain] at hterminals
    exact absurd hterminals (by decide)
  · rw [he] at hterminals
    exact ⟨d, e, hd, he, hconsistent d hd, hgains, Option.some.inj hterminals⟩

end Flowchart.Flow
