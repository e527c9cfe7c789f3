import Flowchart.Proofs.Conversion.Recovery

/-!
# Converting a source into its own notation

The output is a normal form: **converting it again gives the same text**. The reason is that writing
what comes back from a written source writes it again, character by character. Output ids are words
that are not reserved, so they are not renamed a second time; a direction keeps its axis; and an
empty edge label, which PlantUML loses, was not written in the first place.
-/

namespace Flowchart

variable {d e : Diagram} {source : String} {direction : Direction}

/-! ## Writing again -/

/-- Only nodes, edges and title are written. -/
theorem Format.render_congr (F : Format) (hnodes : e.nodes = d.nodes) (hedges : e.edges = d.edges)
    (htitle : e.title? = d.title?) (direction : Direction) :
    F.render e direction = F.render d direction := by
  have hids : e.ids = d.ids := congrArg (List.map Node.id) hnodes
  have hrenaming : ∀ reserved, Renaming.ofDiagram reserved e = Renaming.ofDiagram reserved d := by
    intro reserved
    simp only [Renaming.ofDiagram, Renaming.idsOf, hids, hedges]
  cases F with
  | mermaid =>
    simp only [Format.render, Mermaid.write, Mermaid.lines, hnodes, hedges, htitle, hrenaming]
  | plantUml =>
    simp only [Format.render, PlantUml.write, PlantUml.lines, hnodes, hedges, htitle, hrenaming]
  | d2 => simp only [Format.render, D2.write, D2.lines, hnodes, hedges, htitle]
  | dot =>
    simp only [Format.render, Dot.write, Dot.lines, Dot.statements, hnodes, hedges, htitle]

/-- Nodes without attributes have no lines of attributes. -/
theorem Mermaid.styled_eq_nil (h : ∀ n ∈ d.nodes, n.attributes = .empty) : styled d = [] := by
  rw [styled, List.filter_eq_nil_iff]
  intro n hn
  rw [h n hn]
  exact Bool.false_ne_true

/-- **Output ids are written as they are**, so Mermaid is written again. -/
theorem Mermaid.write_recovered (h : Format.mermaid.Recovers d direction e)
    (hattributes : ∀ n ∈ d.nodes, n.attributes = .empty) (hvalid : e.validate = .ok ()) :
    write e direction = write d direction := by
  let ids := Renaming.ofDiagram reservedWords d
  let again := Renaming.ofDiagram reservedWords e
  have hself : ∀ id, again.apply id = id :=
    Renaming.apply_eq_self reservedWords (fun _ => rfl) h.nodes_eq hvalid
  have hnodes : e.nodes.map (nodeLine again) = d.nodes.map (nodeLine ids) := by
    rw [h.nodes_eq, List.map_map]
    refine List.map_congr_left fun n _ => ?_
    simp only [nodeLine, Function.comp_apply, hself]
    rfl
  have hedges : e.edges.map (edgeLine again) = d.edges.map (edgeLine ids) := by
    rw [h.edges_eq, List.map_map]
    refine List.map_congr_left fun f _ => ?_
    simp only [edgeLine, Function.comp_apply, hself]
    rfl
  have hstyles : styled e = [] := by
    refine styled_eq_nil ?_
    rw [h.nodes_eq]
    exact List.forall_mem_map.2 fun _ _ => rfl
  have hlines : ∀ d, lines d direction = frontMatterLines d.title? ++ [headerText direction] ++
      d.nodes.map (nodeLine (Renaming.ofDiagram reservedWords d)) ++
      d.edges.map (edgeLine (Renaming.ofDiagram reservedWords d)) ++
      (styled d).map (styleLine (Renaming.ofDiagram reservedWords d)) := fun _ => rfl
  rw [write, write, hlines, hlines, h.title_eq, hnodes, hedges, hstyles, styled_eq_nil hattributes,
    List.map_nil, List.map_nil]

/-- A direction is written as its axis. -/
theorem PlantUml.directionStatement_axis (direction : Direction) :
    directionStatement (axis direction) = directionStatement direction := by
  cases direction <;> rfl

/-- A label that is not shown is not written. -/
theorem PlantUml.edgeLabel_shownLabel (label : Option String) :
    edgeLabel (shownLabel label) = edgeLabel label := by
  rcases edgeLabel_cases label with ⟨hwritten, hshown⟩ | ⟨l, hne, hwritten, hshown⟩
  · rw [hwritten, hshown]
    rfl
  · rw [hwritten, hshown, edgeLabel, if_neg hne]
    rfl

/-- **Output ids are written as they are**, so PlantUML is written again. -/
theorem PlantUml.write_recovered (h : Format.plantUml.Recovers d direction e)
    (hvalid : e.validate = .ok ()) : write e (axis direction) = write d direction := by
  let ids := Renaming.ofDiagram reservedWords d
  let again := Renaming.ofDiagram reservedWords e
  have hself : ∀ id, again.apply id = id :=
    Renaming.apply_eq_self reservedWords (fun _ => rfl) h.nodes_eq hvalid
  have hnodes : e.nodes.map (nodeLine again) = d.nodes.map (nodeLine ids) := by
    rw [h.nodes_eq, List.map_map]
    refine List.map_congr_left fun n _ => ?_
    simp only [nodeLine, Function.comp_apply, hself]
    rfl
  have hedges : e.edges.map (edgeLine again) = d.edges.map (edgeLine ids) := by
    rw [h.edges_eq, List.map_map]
    refine List.map_congr_left fun f _ => ?_
    have hlabel : edgeLabel (shownEdge ids f).label = edgeLabel f.label :=
      edgeLabel_shownLabel f.label
    show edgeLine again (shownEdge ids f) = edgeLine ids f
    simp only [edgeLine, hself, hlabel]
    rfl
  have hlines : ∀ d direction, lines d direction = ["@startuml".toList] ++ titleLines d.title? ++
      [(directionStatement direction).toList] ++
      d.nodes.map (nodeLine (Renaming.ofDiagram reservedWords d)) ++
      d.edges.map (edgeLine (Renaming.ofDiagram reservedWords d)) ++ ["@enduml".toList] :=
    fun _ _ => rfl
  rw [write, write, hlines, hlines, h.title_eq, hnodes, hedges, directionStatement_axis]

/-- D2 and DOT give back the nodes, the edges and the title. -/
theorem Format.Recovers.eq_self {F : Format} (h : F.Recovers d direction e)
    (hF : F = .d2 ∨ F = .dot) (hkeeps : ∀ n ∈ d.nodes, F.Keeps n) :
    e.nodes = d.nodes ∧ e.edges = d.edges ∧ e.title? = d.title? := by
  rcases hF with rfl | rfl
  · refine ⟨h.nodes_eq.trans ?_, h.edges_eq.trans (List.map_id _), h.title_eq⟩
    exact (List.map_congr_left hkeeps).trans (List.map_id _)
  · refine ⟨h.nodes_eq.trans ?_, h.edges_eq.trans (List.map_id _), h.title_eq⟩
    refine (List.map_congr_left fun n hn => ?_).trans (List.map_id _)
    exact ((Dot.readBack_eq_iff n).2 (hkeeps n hn).2).trans (hkeeps n hn).1

/-- **Writing what comes back from a written source writes it again**, in every notation. -/
theorem Format.render_recovered {F : Format} (h : F.Recovers d direction e)
    (hkeeps : ∀ n ∈ d.nodes, F.Keeps n) (hvalid : e.validate = .ok ()) :
    F.render e (F.readBackDirection direction) = F.render d direction := by
  cases F with
  | mermaid => exact Mermaid.write_recovered h hkeeps hvalid
  | plantUml => exact PlantUml.write_recovered h hvalid
  | d2 =>
    obtain ⟨hnodes, hedges, htitle⟩ := h.eq_self (Or.inl rfl) hkeeps
    exact Format.render_congr .d2 hnodes hedges htitle direction
  | dot =>
    obtain ⟨hnodes, hedges, htitle⟩ := h.eq_self (Or.inr rfl) hkeeps
    exact Format.render_congr .dot hnodes hedges htitle direction

/-! ## Converting again -/

/-- The direction that was written is the one that the diagram carries. -/
theorem Diagram.direction_eq (h : d.metadata.get? directionKey = some direction.code) :
    d.direction = direction := by
  rw [Diagram.direction, h, Option.map_some, Direction.read_code]

/-- **Conversion into the same notation gives a normal form.** The output of an accepted source is
converted to itself, and D2 and DOT keep nodes, edges and title. In Mermaid this is said of sources
without styles. -/
theorem Settings.convert_convert {F : Format} (haccepted : F.parse source = .ok d)
    (hstyles : F = .mermaid → ¬ Mermaid.HasStyles source.toList) :
    ∃ t, ({} : Settings).convert source (.structured F) F none = .ok t ∧
      ({} : Settings).convert t (.structured F) F none = .ok t ∧
      (F = .d2 ∨ F = .dot →
        ∃ e, F.parse t = .ok e ∧ e.nodes = d.nodes ∧ e.edges = d.edges ∧ e.title? = d.title?) := by
  have hparse : SourceFormat.parse {} (.structured F) source = .ok d := haccepted
  obtain ⟨hvalid, hids⟩ := SourceFormat.parse_accepted hparse
  have hkeeps := Format.keeps_of_parse haccepted hstyles
  have hplain : F = .mermaid → Mermaid.styleLines d = [] := by
    rintro rfl
    rw [Mermaid.styleLines, Mermaid.styled_eq_nil hkeeps, List.map_nil]
  obtain ⟨e, hread, hrecovers⟩ := Format.exists_parse_render hvalid d.direction F hids hplain
  have hagain : SourceFormat.parse {} (.structured F) (F.render d d.direction) = .ok e := hread
  refine ⟨F.render d d.direction, convert_eq_ok_iff.2 ⟨d, hparse, rfl⟩, ?_, fun hF =>
    ⟨e, hread, hrecovers.eq_self hF hkeeps⟩⟩
  refine convert_eq_ok_iff.2 ⟨e, hagain, ?_⟩
  rw [Option.getD_none, Diagram.direction_eq hrecovers.direction_eq]
  exact Format.render_recovered hrecovers hkeeps (SourceFormat.parse_accepted hagain).1

/-- A Mermaid source without a direction, with a node called `style` and a shape of no node type. -/
def handwritten : String := "graph\nstyle((x)) --> b[/y/]"

theorem Settings.convert_convert_handwritten :
    ∃ d, Format.mermaid.parse handwritten = .ok d ∧
      (Format.mermaid = .mermaid → ¬ Mermaid.HasStyles handwritten.toList) ∧
      ∃ t, ({} : Settings).convert handwritten (.structured .mermaid) .mermaid none = .ok t ∧
        ({} : Settings).convert t (.structured .mermaid) .mermaid none = .ok t ∧
        (Format.mermaid = .d2 ∨ Format.mermaid = .dot →
          ∃ e, Format.mermaid.parse t = .ok e ∧ e.nodes = d.nodes ∧ e.edges = d.edges ∧
            e.title? = d.title?) := by
  have hread : (Format.mermaid.parse handwritten).toOption.isSome = true := by decide +kernel
  have hfront : Mermaid.frontMatter handwritten.toList = .ok (none, ⟨handwritten.toList, 0⟩) := by
    decide +kernel
  have hcut : (Mermaid.conventions.hideComments 0 handwritten.toList >>=
      Mermaid.conventions.statements 0).toOption =
        some [⟨"graph".toList, 0⟩, ⟨"style((x)) --> b[/y/]".toList, 6⟩] := by
    decide +kernel
  -- the second statement starts with `style`, but this word does not stand alone
  have hplain : ¬ Mermaid.HasStyles handwritten.toList := by
    rintro ⟨title?, body, visible, found, hfound, hvisible, hstatements, s, hs, hword, halone, -⟩
    obtain ⟨rfl, rfl⟩ := Prod.mk.inj (Except.ok.inj (hfront.symm.trans hfound))
    rw [bind_eq_ok_iff.2 ⟨visible, hvisible, hstatements⟩] at hcut
    obtain rfl := Option.some.inj hcut
    rcases List.mem_pair.1 hs with rfl | rfl
    · exact absurd hword (by decide)
    · exact absurd halone (by decide)
  cases hparse : Format.mermaid.parse handwritten with
  | error problem =>
    rw [hparse] at hread
    exact absurd hread Bool.false_ne_true
  | ok d => exact ⟨d, rfl, fun _ => hplain, convert_convert hparse fun _ => hplain⟩

end Flowchart
