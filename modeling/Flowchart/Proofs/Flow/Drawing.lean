import Flowchart.Proofs.Flow.Accepted
import Flowchart.Proofs.Graph.Leads

/-!
# The diagram of a flow

Flow text that is accepted has one flow, and its diagram is drawn from the piece of this flow: a node
for each step, named by its number, and an edge for each edge of the piece. So **what is joined among
the steps is joined among the nodes**, and nothing else.
-/

namespace Flowchart.Flow

variable {piece : Piece} {a b : Nat}

/-- The diagram has a node for each step of a piece and an edge for each of its edges. -/
structure Piece.IsDrawnBy (piece : Piece) (d : Diagram) : Prop where
  ids : d.ids = (List.range piece.steps.length).map stepId
  labels : d.nodes.map Node.label = piece.steps
  edges : d.edges = piece.edges.map edge

/-- The labels of the nodes of a piece are its steps. -/
theorem Piece.map_label_nodes (piece : Piece) : piece.nodes.map Node.label = piece.steps := by
  rw [nodes, List.map_map]
  exact List.zipIdx_map_fst 0 piece.steps

/-- **A flow without items draws nothing, and a chain its piece.** -/
theorem isDrawnBy_of_assemble {options : Options} {flow : Option Chain} {d : Diagram}
    (h : assemble options flow = .ok d) :
    (flow = none ∧ ({} : Piece).IsDrawnBy d) ∨
      ∃ chain piece, flow = some chain ∧ chain.piece 0 = .ok piece ∧ piece.IsDrawnBy d := by
  cases flow with
  | none =>
    unfold assemble at h
    obtain ⟨-, hnodes, hedges, -⟩ := Options.diagram_eq_ok (mapError_eq_ok h)
    exact Or.inl ⟨rfl, by rw [Diagram.ids, hnodes]; rfl, by rw [hnodes]; rfl, by rw [hedges]; rfl⟩
  | some chain =>
    unfold assemble at h
    obtain ⟨piece, hpiece, h⟩ := bind_eq_ok_iff.1 h
    obtain ⟨-, hnodes, hedges, -⟩ := Options.diagram_eq_ok (mapError_eq_ok h)
    refine Or.inr ⟨chain, piece, rfl, hpiece, ?_, ?_, hedges⟩
    · rw [Diagram.ids, hnodes]
      split
      · rw [map_id_withTerminals, Piece.map_id_nodes]
      · exact piece.map_id_nodes
    · rw [hnodes]
      split
      · rw [map_label_withTerminals, Piece.map_label_nodes]
      · exact piece.map_label_nodes

theorem IsFlowOf.unique {source : String} {flow other : Option Chain} (h : IsFlowOf source flow)
    (hother : IsFlowOf source other) : flow = other := by
  obtain ⟨ts, hts, hflow⟩ := h
  obtain ⟨us, hus, hother⟩ := hother
  obtain rfl := Except.ok.inj (hts.symm.trans hus)
  exact Except.ok.inj (hflow.symm.trans hother)

namespace Piece.IsDrawnBy

variable {d : Diagram}

/-- The edges of a diagram join the nodes of steps that the edges of the piece join. -/
theorem joins_iff (h : piece.IsDrawnBy d) (hbelow : piece.Below piece.steps.length) {u v : String} :
    d.Joins d.edges u v ↔ ∃ a b, Joined piece.edges a b ∧ stepId a = u ∧ stepId b = v := by
  have hmem : ∀ k < piece.steps.length, stepId k ∈ d.ids := by
    intro k hk
    rw [h.ids]
    exact List.mem_map_of_mem (List.mem_range.2 hk)
  constructor
  · rintro ⟨_, he, -, rfl, rfl⟩
    rw [h.edges] at he
    obtain ⟨e, hdrawn, rfl⟩ := List.mem_map.1 he
    exact ⟨e.source, e.target, ⟨e, hdrawn, rfl, rfl⟩, rfl, rfl⟩
  · rintro ⟨a, b, ⟨e, he, rfl, rfl⟩, rfl, rfl⟩
    obtain ⟨hsource, htarget⟩ := hbelow.edges e he
    refine ⟨edge e, ?_, Diagram.connects_iff.2 ⟨hmem _ hsource, hmem _ htarget⟩, rfl, rfl⟩
    rw [h.edges]
    exact List.mem_map_of_mem he

/-- **Edges of the piece that lead from a step to another lead from its node to the other's.** -/
theorem leads (h : piece.IsDrawnBy d) (hbelow : piece.Below piece.steps.length)
    (hleads : Relation.TransGen (Joined piece.edges) a b) :
    d.Leads d.edges (stepId a) (stepId b) :=
  hleads.lift stepId fun a b hab => (h.joins_iff hbelow).2 ⟨a, b, hab, rfl, rfl⟩

/-- Every node is that of a step. -/
theorem exists_owns (h : piece.IsDrawnBy d) {id : String} (hid : id ∈ d.ids) :
    ∃ k, piece.Owns 0 k ∧ stepId k = id := by
  rw [h.ids] at hid
  obtain ⟨k, hk, rfl⟩ := List.mem_map.1 hid
  exact ⟨k, ⟨Nat.zero_le k, by simpa using hk⟩, rfl⟩

/-- What a step leads to is reachable from its node. -/
theorem mem_reachable (h : piece.IsDrawnBy d) (hbelow : piece.Below piece.steps.length)
    (hleads : LeadsTo piece.edges a b) (hne : b ≠ a) : stepId b ∈ d.reachable (stepId a) :=
  Diagram.mem_reachable_iff.2
    (h.leads hbelow ((Relation.reflTransGen_iff_eq_or_transGen.1 hleads).resolve_left hne))

end Piece.IsDrawnBy

end Flowchart.Flow
