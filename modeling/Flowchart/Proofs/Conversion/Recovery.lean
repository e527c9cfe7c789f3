import Flowchart.Conversion.Settings
import Flowchart.Proofs.D2.Accepted
import Flowchart.Proofs.D2.RoundTrip
import Flowchart.Proofs.Dot.Accepted
import Flowchart.Proofs.Dot.RoundTrip
import Flowchart.Proofs.Flow.Accepted
import Flowchart.Proofs.Mermaid.Styles
import Flowchart.Proofs.PlantUml.Accepted
import Flowchart.Proofs.PlantUml.RoundTrip

/-!
# What comes back from a written source

The four notations differ in what they keep of a diagram: D2 and DOT keep the ids, Mermaid and
PlantUML give output ids; PlantUML drops attributes, empty edge labels and the sense of a direction.
`Format.Recovers` says all of this at once, so that what is true of every notation is stated once.

Only one thing can go wrong, the attributes in Mermaid: so **every valid diagram whose nodes have ids
is recovered from its source**, in Mermaid if no attributes are written.
-/

namespace Flowchart

open Diagram (directionKey)

variable {d e : Diagram} {source : String}

/-! ## Accepted sources -/

/-- **What a source is read as is valid, and its nodes have ids**, whatever the notation. -/
theorem SourceFormat.parse_accepted {options : Flow.Options} {sourceFormat : SourceFormat}
    (h : sourceFormat.parse options source = .ok d) :
    d.validate = .ok () ∧ ∀ n ∈ d.nodes, n.id ≠ "" := by
  cases sourceFormat with
  | text => exact Flow.read_accepted h
  | structured format =>
    cases format with
    | mermaid =>
      obtain ⟨hvalid, hids, -⟩ := Mermaid.read_accepted h
      exact ⟨hvalid, hids⟩
    | plantUml => exact (PlantUml.read_accepted h).imp_right fun h n hn => (h n hn).1
    | d2 => exact (D2.read_accepted h).imp_right fun h n hn => (h n hn).1
    | dot => exact (Dot.read_accepted h).imp_right fun h n hn => (h n hn).1

namespace Format

/-- The node can be written without loss, but for its id. -/
def Keeps : Format → Node → Prop
  | .mermaid, n => n.attributes = .empty
  | .plantUml, n => n.attributes = .empty
  | .d2, n => n.stripped = n
  | .dot, n => Dot.IsDeclarable n

/-- **A source gives nodes that can be written again in its notation.** -/
theorem keeps_of_parse {F : Format} (h : F.parse source = .ok d)
    (hstyles : F = .mermaid → ¬ Mermaid.HasStyles source.toList) : ∀ n ∈ d.nodes, F.Keeps n := by
  cases F with
  | mermaid => exact (Mermaid.read_accepted h).2.2 (hstyles rfl)
  | plantUml => exact fun n hn => ((PlantUml.read_accepted h).2 n hn).2
  | d2 => exact fun n hn => ((D2.read_accepted h).2 n hn).2
  | dot => exact fun n hn => ((Dot.read_accepted h).2 n hn).2

/-! ## What is recovered -/

/-- A node as it comes back. -/
def readBackNode : Format → Diagram → Node → Node
  | .mermaid, d, n =>
    { (Renaming.ofDiagram Mermaid.reservedWords d).node n with attributes := .empty }
  | .plantUml, d, n =>
    { (Renaming.ofDiagram PlantUml.reservedWords d).node n with attributes := .empty }
  | .d2, _, n => n.stripped
  | .dot, _, n => Dot.readBack n

/-- An edge as it comes back. -/
def readBackEdge : Format → Diagram → Edge → Edge
  | .mermaid, d, e => (Renaming.ofDiagram Mermaid.reservedWords d).edge e
  | .plantUml, d, e => PlantUml.shownEdge (Renaming.ofDiagram PlantUml.reservedWords d) e
  | .d2, _, e => e
  | .dot, _, e => e

/-- A direction as it comes back. -/
def readBackDirection : Format → Direction → Direction
  | .plantUml, direction => PlantUml.axis direction
  | _, direction => direction

/-- The second diagram is what comes back from the first, written in this direction. -/
structure Recovers (F : Format) (d : Diagram) (direction : Direction) (e : Diagram) : Prop where
  nodes_eq : e.nodes = d.nodes.map (F.readBackNode d)
  edges_eq : e.edges = d.edges.map (F.readBackEdge d)
  title_eq : e.title? = d.title?
  direction_eq : e.metadata.get? directionKey = some (F.readBackDirection direction).code

section

variable (hvalid : d.validate = .ok ()) (direction : Direction)

include hvalid

theorem exists_recovers_d2 (hids : ∀ n ∈ d.nodes, n.id ≠ "") :
    ∃ e, D2.read (D2.write d direction) = .ok e ∧ Recovers .d2 d direction e := by
  obtain ⟨draft, hdraft, hgains⟩ := D2.draft_eq d direction
  have hmap : (d.nodes.map Node.stripped).map Node.id = d.ids := List.map_map
  obtain ⟨e, hresolve, hnodes, hedges, htitle, hdirection⟩ :=
    Draft.holds_empty.resolve_gainsAll hgains (D2.describes_said d direction)
      (by rw [hmap]; exact d.nodup) (List.forall_mem_map.2 hids)
      (by rw [hmap]; exact Diagram.validate_eq_ok_iff.1 hvalid) (List.forall_mem_nil _)
      (D2.write d direction).toList
  refine ⟨e, by rw [D2.read, hdraft]; exact hresolve, ?_, ?_, htitle, hdirection⟩
  · rw [hnodes]
    exact List.map_id _
  · rw [hedges]
    exact (List.map_id _).symm

theorem exists_recovers_dot (hids : ∀ n ∈ d.nodes, n.id ≠ "") :
    ∃ e, Dot.read (Dot.write d direction) = .ok e ∧ Recovers .dot d direction e := by
  obtain ⟨e, hread, hnodes, hedges, htitle, hdirection⟩ := Dot.exists_read_write hvalid hids direction
  refine ⟨e, hread, hnodes, ?_, htitle, hdirection⟩
  rw [hedges]
  exact (List.map_id _).symm

theorem exists_recovers_plantUml :
    ∃ e, PlantUml.read (PlantUml.write d direction) = .ok e ∧ Recovers .plantUml d direction e := by
  obtain ⟨draft, hdraft, hgains⟩ := PlantUml.draft_eq d direction
  let ids := Renaming.ofDiagram PlantUml.reservedWords d
  have hmap : (d.nodes.map fun n => { ids.node n with attributes := .empty }).map Node.id =
      d.ids.map ids.apply := Renaming.map_id_map fun _ => rfl
  have hends : ∀ e ∈ d.edges.map (PlantUml.shownEdge ids),
      e.source ∈ d.ids.map ids.apply ∧ e.target ∈ d.ids.map ids.apply :=
    List.forall_mem_map.2 fun f hf =>
      Renaming.ends_map_edge hvalid ids (ids.edge f) (List.mem_map_of_mem hf)
  obtain ⟨e, hresolve, hnodes, hedges, htitle, hdirection⟩ :=
    Draft.holds_empty.resolve_gainsAll hgains (PlantUml.describes_said d direction)
      (by rw [hmap]; exact Renaming.nodup_map_apply PlantUml.reservedWords)
      (Renaming.id_ne_empty_of_mem_map PlantUml.reservedWords fun _ => rfl)
      (by rw [hmap]; exact hends) (List.forall_mem_nil _) (PlantUml.write d direction).toList
  refine ⟨e, by rw [PlantUml.read, hdraft]; exact hresolve, ?_, hedges, htitle, hdirection⟩
  rw [hnodes]
  exact List.map_id _

theorem exists_recovers_mermaid (hstyles : Mermaid.styleLines d = []) :
    ∃ e, Mermaid.read (Mermaid.write d direction) = .ok e ∧ Recovers .mermaid d direction e := by
  obtain ⟨e, hread, hnodes, hedges, htitle, hdirection⟩ :=
    Mermaid.exists_read_write hvalid direction []
      (by rw [hstyles]; exact Mermaid.texts?_nil) (List.forall_mem_nil _)
  exact ⟨e, hread, hnodes, hedges, htitle, hdirection⟩

/-- **A written diagram is recovered**, whatever the notation. -/
theorem exists_parse_render (F : Format) (hids : ∀ n ∈ d.nodes, n.id ≠ "")
    (hstyles : F = .mermaid → Mermaid.styleLines d = []) :
    ∃ e, F.parse (F.render d direction) = .ok e ∧ F.Recovers d direction e := by
  cases F with
  | mermaid => exact exists_recovers_mermaid hvalid direction (hstyles rfl)
  | plantUml => exact exists_recovers_plantUml hvalid direction
  | d2 => exact exists_recovers_d2 hvalid direction hids
  | dot => exact exists_recovers_dot hvalid direction hids

end

end Format

/-- **Without settings, a conversion reads and writes**, in the direction that is asked for or else in
that of the source. -/
theorem Settings.convert_eq_ok_iff {sourceFormat : SourceFormat} {F : Format}
    {asked : Option Direction} {text : String} :
    ({} : Settings).convert source sourceFormat F asked = .ok text ↔
      ∃ d, sourceFormat.parse {} source = .ok d ∧ F.render d (asked.getD d.direction) = text := by
  have hrender : ∀ d : Diagram, ({} : Settings).render (({} : Settings).transform d) F asked =
      F.render d (asked.getD d.direction) := by
    intro d
    show F.render d ((asked.or none).getD d.direction) = _
    rw [Option.or_none]
  unfold convert
  rw [bind_eq_ok_iff]
  refine exists_congr fun d => and_congr_right fun _ => ?_
  rw [← hrender d]
  exact ⟨Except.ok.inj, fun h => congrArg Except.ok h⟩

end Flowchart
