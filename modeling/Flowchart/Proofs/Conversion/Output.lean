import Flowchart.Proofs.Conversion.Recovery

/-!
# Whether a converted source can be read

Whatever a source says is written in the syntax of another notation. Ids, labels and titles are
renamed, quoted or escaped there, and so are attributes in D2 and DOT. Mermaid writes attributes as
they are. So **an output can be read, with as many nodes and edges as the source, in every other
notation, and in Mermaid exactly if its lines of attributes only give styles**.
-/

namespace Flowchart

/-- **A conversion gives a source with as many nodes and edges**, unless it writes attributes in
Mermaid that are read as something else than the styles of nodes. -/
theorem Settings.convert_readable {sourceFormat : SourceFormat} {F : Format}
    {asked : Option Direction} {source text : String}
    (h : ({} : Settings).convert source sourceFormat F asked = .ok text) :
    ∃ d, sourceFormat.parse {} source = .ok d ∧
      ((∃ e, F.parse text = .ok e ∧ e.nodes.length = d.nodes.length ∧
          e.edges.length = d.edges.length) ↔
        (F = .mermaid → ∀ line ∈ Mermaid.styleLines d,
          Mermaid.OnlyStyles (Mermaid.outputIds d) line)) := by
  obtain ⟨d, hparse, rfl⟩ := Settings.convert_eq_ok_iff.1 h
  obtain ⟨hvalid, hids⟩ := SourceFormat.parse_accepted hparse
  refine ⟨d, hparse, ?_⟩
  by_cases hF : F = .mermaid
  · subst hF
    refine (Mermaid.exists_read_write_iff hvalid _).trans ?_
    exact ⟨fun h _ => h, fun h => h rfl⟩
  · refine ⟨fun _ hmermaid => absurd hmermaid hF, fun _ => ?_⟩
    obtain ⟨e, hread, hrecovers⟩ := Format.exists_parse_render hvalid (asked.getD d.direction) F hids
      fun hmermaid => absurd hmermaid hF
    refine ⟨e, hread, ?_, ?_⟩
    · rw [hrecovers.nodes_eq, List.length_map]
    · rw [hrecovers.edges_eq, List.length_map]

/-- A DOT source with an attribute that fits into a Mermaid style. -/
def filled : String := "digraph \x7b a [fill=\"#f96\"]; b; a -> b \x7d"

theorem Settings.convert_readable_filled :
    ({} : Settings).convert filled (.structured .dot) .mermaid none =
        .ok "flowchart TD\n    a(a)\n    b(b)\n    a --> b\n    style a fill:#f96\n" ∧
      ∃ d, SourceFormat.parse {} (.structured .dot) filled = .ok d ∧
        ((∃ e, Format.mermaid.parse
              "flowchart TD\n    a(a)\n    b(b)\n    a --> b\n    style a fill:#f96\n" = .ok e ∧
            e.nodes.length = d.nodes.length ∧ e.edges.length = d.edges.length) ↔
          (Format.mermaid = .mermaid → ∀ line ∈ Mermaid.styleLines d,
            Mermaid.OnlyStyles (Mermaid.outputIds d) line)) := by
  have hconvert : ({} : Settings).convert filled (.structured .dot) .mermaid none =
      .ok "flowchart TD\n    a(a)\n    b(b)\n    a --> b\n    style a fill:#f96\n" := by
    decide +kernel
  exact ⟨hconvert, convert_readable hconvert⟩

/-- A DOT source with an attribute whose value holds a quote. -/
def measured : String := "digraph \x7b a [note=\"5\\\" pipe\"]; b; a -> b \x7d"

/-- The quote opens a string that the line does not close. -/
theorem Settings.convert_quote_unreadable :
    ∃ text, ({} : Settings).convert measured (.structured .dot) .mermaid none = .ok text ∧
      ∀ e, Format.mermaid.parse text ≠ .ok e := by
  refine ⟨"flowchart TD\n    a(a)\n    b(b)\n    a --> b\n    style a note:5\" pipe\n",
    by decide +kernel, fun e hread => ?_⟩
  have hnone : (Format.mermaid.parse
      "flowchart TD\n    a(a)\n    b(b)\n    a --> b\n    style a note:5\" pipe\n").toOption = none := by
    decide +kernel
  rw [hread] at hnone
  exact absurd hnone (by simp [Except.toOption])

end Flowchart
