import Flowchart.Dot.Reading
import Flowchart.Proofs.Source.Steps

/-!
# What the DOT reader accepts

Every statement takes steps on the draft and may change the defaults of those that follow. The nodes
it declares have no attributes called `shape` or `label`, and a node labelled `\N` is the node `\N`,
because this label stands for the id. So **an accepted source gives a valid diagram of such nodes**.
-/

namespace Flowchart.Dot

/-- The node can come from a DOT source. -/
def IsDeclarable (n : Node) : Prop := n.stripped = n ∧ (n.label = "\\N" → n.id = "\\N")

namespace Progress

theorem isDeclarable_node (id : String) (attributes : List Attribute) :
    IsDeclarable (node id attributes) := by
  constructor
  · exact Node.stripped_withAttributes rfl fun p hp => (List.mem_filter.1 hp).2
  -- the label `\N` was given up for the id
  · show ((valueOf? attributes "label").filter (· ≠ "\\N")).getD id = "\\N" → id = "\\N"
    cases hlabel : (valueOf? attributes "label").filter (· ≠ "\\N") with
    | none => exact fun h => h
    | some label =>
      intro h
      have hne := (Option.filter_eq_some_iff.1 hlabel).2
      rw [decide_eq_true_eq] at hne
      exact absurd h hne

/-- Steps of the reader: it records no attributes beside the nodes. -/
abbrev Steps (p q : Progress) : Prop := Draft.Steps IsDeclarable False p.draft q.draft

theorem steps_setGraph (p : Progress) (s : Statement) (attributes : List Attribute) :
    Steps p (p.setGraph s attributes) := by
  induction attributes generalizing p with
  | nil => exact .refl
  | cons a rest ih =>
    obtain ⟨name, value⟩ := a
    unfold setGraph
    split
    · exact .head (.title p.draft value) (ih { p with draft := p.draft.setTitle value })
    · split
      · split
        · next direction _ =>
          exact .head (.direction p.draft direction)
            (ih { p with draft := p.draft.setDirection direction })
        · exact .single (.report p.draft _)
      · exact ih p

theorem steps_connectAll (d : Draft) (attributes : List Attribute) (source : Spanned String)
    (rest : List (Spanned String)) :
    Draft.Steps IsDeclarable False d (connectAll d attributes source rest) := by
  induction rest generalizing d source with
  | nil => exact .refl
  | cons target rest ih => exact .head (.connect d _ _ _) (ih _ target)

theorem steps_add (p : Progress) (s : Statement) (statement : BodyStatement) :
    Steps p (p.add s statement) := by
  unfold add
  split
  · exact steps_setGraph p s _
  · exact .refl
  · exact .refl
  · exact steps_setGraph p s _
  · exact .single (.declare p.draft _ _ (isDeclarable_node _ _))
  · exact steps_connectAll p.draft _ _ _

/-- **Every statement takes steps on the draft.** -/
theorem steps_readStatement (p : Progress) (s : Statement) : Steps p (p.readStatement s) := by
  unfold readStatement
  split
  · exact .single (.report p.draft _)
  · split
    · exact steps_add p s _
    · exact .single (.report p.draft _)

end Progress

theorem steps_draft {source : List Char} {d : Draft} (h : draft source = .ok d) :
    Draft.Steps IsDeclarable False {} d := by
  unfold draft at h
  obtain ⟨visible, -, h⟩ := bind_eq_ok_iff.1 h
  obtain ⟨graphs, -, h⟩ := bind_eq_ok_iff.1 h
  cases graphs with
  | nil => exact absurd h (by simp)
  | cons graph extra =>
    obtain ⟨body, -, h⟩ := bind_eq_ok_iff.1 h
    obtain ⟨found, -, h⟩ := bind_eq_ok_iff.1 h
    -- what stands behind the graph is reported first
    let start : Progress :=
      { draft := extra.foldl (fun d s => d.report (contentAfterGraph s.span)) {} }
    have hextra : Draft.Steps IsDeclarable False {} start.draft :=
      Draft.steps_foldl (fun d => d) (fun s _ d => .single (.report d _)) {}
    have hbody : Draft.Steps IsDeclarable False start.draft
        (found.foldl Progress.readStatement start).draft :=
      Draft.steps_foldl Progress.draft (fun s _ p => p.steps_readStatement s) start
    obtain rfl : (found.foldl Progress.readStatement start).draft = d := Except.ok.inj h
    exact hextra.trans hbody

/-- **An accepted DOT source gives a valid diagram** of nodes that have ids, no attributes called
`shape` or `label`, and the label `\N` only where it is the id. -/
theorem read_accepted {source : String} {e : Diagram} (h : read source = .ok e) :
    e.validate = .ok () ∧ ∀ n ∈ e.nodes, n.id ≠ "" ∧ IsDeclarable n := by
  unfold read at h
  split at h
  · next d hd => exact (steps_draft hd).resolve h
  · exact absurd h (by simp)

end Flowchart.Dot
