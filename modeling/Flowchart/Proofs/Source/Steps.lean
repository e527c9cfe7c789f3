import Flowchart.Proofs.Diagram
import Flowchart.Source.Draft
import Mathlib.Data.List.Nodup
import Mathlib.Logic.Relation

/-!
# What readers do to a draft

Whatever the notation and whatever the source, a reader changes its draft in six ways. `Draft.Step`
lists them, and `Draft.Steps` is a run of them. What holds of every source follows from what a step
preserves:

* the declared nodes have distinct ids, no id is empty, and the nodes satisfy what holds of every
  node that the reader declares (`Draft.Orderly`);
* nothing is lost: nodes, edges and problems only become more.

A draft resolves to a diagram only if every edge has both of its ends. So **what a reader accepts is
a valid diagram in which every node has an id**.
-/

namespace Flowchart

/-- Two stages give a result exactly if the first gives one on which the second does. -/
theorem bind_eq_ok_iff {ε α β : Type} {first : Except ε α} {second : α → Except ε β} {b : β} :
    (first >>= second) = .ok b ↔ ∃ a, first = .ok a ∧ second a = .ok b := by
  cases first with
  | error e => simp [bind, Except.bind]
  | ok a => simp [bind, Except.bind]

section State

variable {σ ε α β : Type} {r : StateT σ (Except ε) α} {next : α → StateT σ (Except ε) β} {s s' : σ}

/-- What the first of two stages gives is handed on, with the state that it leaves. -/
theorem bind_of_eq_ok {a : α} (h : r s = .ok (a, s')) : (r >>= next) s = next a s' := by
  show (r s >>= fun found => next found.1 found.2) = next a s'
  rw [h]
  rfl

theorem bind_of_eq_error {e : ε} (h : r s = .error e) : (r >>= next) s = .error e := by
  show (r s >>= fun found => next found.1 found.2) = .error e
  rw [h]
  rfl

end State

namespace Draft

variable {p : Node → Prop} {styles : Prop} {d d' : Draft}

/-! ## Steps -/

/-- One change of a draft. Declared nodes satisfy `p`, and attributes are recorded only if
`styles` allows it. -/
inductive Step (p : Node → Prop) (styles : Prop) : Draft → Draft → Prop
  | report (d : Draft) (problem : Diagnostic) : Step p styles d (d.report problem)
  | declare (d : Draft) (n : Node) (span : Span) (h : p n) : Step p styles d (d.declare n span)
  | connect (d : Draft) (e : Edge) (sourceSpan targetSpan : Span) :
      Step p styles d (d.connect e sourceSpan targetSpan)
  | style (d : Draft) (id : Spanned String) (attributes : List (String × String)) (h : styles) :
      Step p styles d (d.style id attributes)
  | title (d : Draft) (text : String) : Step p styles d (d.setTitle text)
  | direction (d : Draft) (direction : Direction) : Step p styles d (d.setDirection direction)

/-- Changes of a draft one after the other. -/
abbrev Steps (p : Node → Prop) (styles : Prop) : Draft → Draft → Prop :=
  Relation.ReflTransGen (Step p styles)

/-- Where attributes are recorded, they may be allowed. -/
theorem Steps.mono {styles' : Prop} (h : Steps p styles d d') (hstyles : styles → styles') :
    Steps p styles' d d' := by
  refine Relation.ReflTransGen.mono (fun a b hstep => ?_) d d' h
  cases hstep with
  | report problem => exact .report a problem
  | declare n span hn => exact .declare a n span hn
  | connect e sourceSpan targetSpan => exact .connect a e sourceSpan targetSpan
  | style id attributes hs => exact .style a id attributes (hstyles hs)
  | title text => exact .title a text
  | direction direction => exact .direction a direction

/-- A reader that goes through statements takes the steps of each. -/
theorem steps_foldl {σ : Type} {α : Type} (draft : σ → Draft) {step : σ → α → σ} {items : List α}
    (h : ∀ a ∈ items, ∀ s, Steps p styles (draft s) (draft (step s a))) (s : σ) :
    Steps p styles (draft s) (draft (items.foldl step s)) := by
  induction items generalizing s with
  | nil => exact .refl
  | cons a rest ih =>
    exact (h a List.mem_cons_self s).trans (ih (fun b hb => h b (List.mem_cons_of_mem a hb)) _)

/-! ## What steps preserve -/

/-- The declared nodes have distinct ids, no id is empty, and the nodes satisfy `p`. -/
structure Orderly (p : Node → Prop) (d : Draft) : Prop where
  nodup_ids : (d.nodes.map fun q => q.1.id).Nodup
  id_ne_empty : ∀ q ∈ d.nodes, q.1.id ≠ ""
  holds : ∀ q ∈ d.nodes, p q.1

/-- The empty draft is orderly. -/
theorem orderly_empty (p : Node → Prop) : Orderly p {} where
  nodup_ids := List.nodup_nil
  id_ne_empty := List.forall_mem_nil _
  holds := List.forall_mem_nil _

/-- Steps that do not declare leave the nodes as they are. -/
theorem Orderly.of_nodes_eq (h : d.Orderly p) (hnodes : d'.nodes = d.nodes) : d'.Orderly p where
  nodup_ids := by rw [hnodes]; exact h.nodup_ids
  id_ne_empty := by rw [hnodes]; exact h.id_ne_empty
  holds := by rw [hnodes]; exact h.holds

/-- The id of a declaration that is not found is new. -/
theorem declaration?_eq_none_iff {id : String} :
    d.declaration? id = none ↔ id ∉ d.nodes.map fun q => q.1.id := by
  rw [declaration?, Keyed.find?, List.find?_eq_none, List.mem_map]
  simp

/-- What declaring a node does: it reports a problem or adds the node, and in that case the id is
new. -/
theorem declare_cases (d : Draft) (n : Node) (span : Span) :
    (∃ problem, d.declare n span = d.report problem) ∨
      (n.id ≠ "" ∧ (n.id ∉ d.nodes.map fun q => q.1.id) ∧
        d.declare n span = { d with nodes := d.nodes ++ [(n, span)] }) := by
  unfold declare
  split
  · exact Or.inl ⟨_, rfl⟩
  · next hne =>
    split
    · exact Or.inl ⟨_, rfl⟩
    · next hnone => exact Or.inr ⟨hne, declaration?_eq_none_iff.1 hnone, rfl⟩

/-- **One step keeps the nodes orderly.** -/
theorem Orderly.step (h : d.Orderly p) (hstep : Step p styles d d') : d'.Orderly p := by
  cases hstep with
  | declare n span hn =>
    rcases declare_cases d n span with ⟨problem, hreport⟩ | ⟨hne, hnew, hadd⟩
    · rw [hreport]
      exact h.of_nodes_eq rfl
    · rw [hadd]
      constructor
      · rw [List.map_append, List.nodup_append]
        refine ⟨h.nodup_ids, List.nodup_singleton _, ?_⟩
        intro id hid id' hid' heq
        obtain rfl : id' = n.id := by simpa using hid'
        exact hnew (heq ▸ hid)
      · exact List.forall_mem_append.2 ⟨h.id_ne_empty, List.forall_mem_singleton.2 hne⟩
      · exact List.forall_mem_append.2 ⟨h.holds, List.forall_mem_singleton.2 hn⟩
  | report => exact h.of_nodes_eq rfl
  | connect => exact h.of_nodes_eq rfl
  | style => exact h.of_nodes_eq rfl
  | title => exact h.of_nodes_eq rfl
  | direction => exact h.of_nodes_eq rfl

/-- **A whole run keeps the nodes orderly.** -/
theorem Orderly.steps (h : d.Orderly p) (hsteps : Steps p styles d d') : d'.Orderly p := by
  induction hsteps with
  | refl => exact h
  | tail _ hstep ih => exact ih.step hstep

/-- A reader that records no attributes leaves none. -/
theorem Steps.styles_eq (h : Steps p False d d') : d'.styles = d.styles := by
  induction h with
  | refl => rfl
  | tail _ hstep ih =>
    rw [← ih]
    cases hstep with
    | declare n span =>
      rcases declare_cases _ n span with ⟨problem, hreport⟩ | ⟨-, -, hadd⟩
      · rw [hreport]
        rfl
      · rw [hadd]
    | style _ _ hno => exact absurd hno id
    | report => rfl
    | connect => rfl
    | title => rfl
    | direction => rfl

/-- How many nodes, edges and problems a draft holds. -/
def size (d : Draft) : Nat := d.nodes.length + d.edges.length + d.problems.length

theorem size_report (d : Draft) (problem : Diagnostic) : (d.report problem).size = d.size + 1 := by
  simp only [size, report, List.length_append, List.length_singleton]
  omega

theorem size_declare (d : Draft) (n : Node) (span : Span) :
    (d.declare n span).size = d.size + 1 := by
  rcases declare_cases d n span with ⟨problem, hreport⟩ | ⟨-, -, hadd⟩
  · rw [hreport, size_report]
  · rw [hadd]
    simp only [size, List.length_append, List.length_singleton]
    omega

theorem size_connect (d : Draft) (e : Edge) (sourceSpan targetSpan : Span) :
    (d.connect e sourceSpan targetSpan).size = d.size + 1 := by
  simp only [size, connect, List.length_append, List.length_singleton]
  omega

/-- **Steps lose nothing.** -/
theorem Steps.size_le (h : Steps p styles d d') : d.size ≤ d'.size := by
  induction h with
  | refl => exact Nat.le_refl _
  | tail _ hstep ih =>
    refine Nat.le_trans ih ?_
    cases hstep with
    | report problem => rw [size_report]; omega
    | declare n span => rw [size_declare]; omega
    | connect e sourceSpan targetSpan => rw [size_connect]; omega
    | style => exact Nat.le_refl _
    | title => exact Nat.le_refl _
    | direction => exact Nat.le_refl _

/-! ## The diagram of an orderly draft -/

/-- A draft resolves exactly if there is nothing to report, and then to its diagram. -/
theorem resolve_eq_ok_iff {source : List Char} {e : Diagram} :
    d.resolve source = .ok e ↔
      (d.problems = [] ∧ d.undeclaredEnds = [] ∧ d.undeclaredStyles = []) ∧ d.diagram = e := by
  unfold resolve
  split
  · next h =>
    rw [List.append_eq_nil_iff, List.append_eq_nil_iff, and_assoc] at h
    simp [h]
  · next h =>
    constructor
    · exact fun hok => absurd hok (by simp)
    · rintro ⟨⟨hproblems, hends, hstyles⟩, -⟩
      exact absurd (by rw [hproblems, hends, hstyles]; rfl) h

/-- A draft is refused for its problems and for the nodes that it does not declare, with the line of
each. -/
theorem resolve_eq_error_iff {source : List Char} {e : ParseError} :
    d.resolve source = .error e ↔
      d.problems ++ d.undeclaredEnds ++ d.undeclaredStyles ≠ [] ∧
        e = ⟨(d.problems ++ d.undeclaredEnds ++ d.undeclaredStyles).map (Diagnostic.locate source)⟩ := by
  unfold resolve
  split
  · next h => simp [h]
  · next h =>
    rw [Except.error.injEq, eq_comm (b := e), and_iff_right]
    exact fun hnil => h hnil

/-- No end of an edge is undeclared exactly if all of them are declared. -/
theorem undeclaredEnds_eq_nil_iff :
    d.undeclaredEnds = [] ↔ ∀ e ∈ d.edges,
      (e.edge.source ∈ d.nodes.map fun q => q.1.id) ∧
        (e.edge.target ∈ d.nodes.map fun q => q.1.id) := by
  rw [undeclaredEnds, List.flatMap_eq_nil_iff]
  refine forall₂_congr fun e _ => ?_
  rw [List.map_eq_nil_iff, List.filter_eq_nil_iff]
  simp only [Option.isNone_iff_eq_none, declaration?_eq_none_iff, List.forall_mem_cons, not_not,
    List.not_mem_nil, false_implies, implies_true, and_true]

/-- No style is for an undeclared node exactly if all of them are for declared ones. -/
theorem undeclaredStyles_eq_nil_iff :
    d.undeclaredStyles = [] ↔ ∀ s ∈ d.styles, s.id.value ∈ d.nodes.map fun q => q.1.id := by
  rw [undeclaredStyles, List.map_eq_nil_iff, List.filter_eq_nil_iff]
  simp only [Option.isNone_iff_eq_none, declaration?_eq_none_iff, not_not]

/-- Styles leave the id of a node alone. -/
theorem id_styled (d : Draft) (n : Node) : (d.styled n).id = n.id := by
  unfold styled
  generalize d.styles.filter _ = chosen
  induction chosen generalizing n with
  | nil => rfl
  | cons s rest ih => exact ih (n.withAttributes s.attributes)

/-- The diagram of an orderly draft has every declared node with its attributes. -/
theorem Orderly.nodes_diagram (h : d.Orderly p) :
    d.diagram.nodes = d.nodes.map fun q => d.styled q.1 := by
  refine Diagram.nodes_ofNodes ?_ d.metadata
  rw [List.map_map]
  have hid : (Node.id ∘ fun q : Node × Span => d.styled q.1) = fun q => q.1.id := by
    funext q
    exact d.id_styled q.1
  rw [hid]
  exact h.nodup_ids

theorem edges_diagram (d : Draft) : d.diagram.edges = d.edges.map DraftEdge.edge :=
  List.nil_append _

/-- The diagram of an orderly draft has the declared ids. -/
theorem Orderly.ids_diagram (h : d.Orderly p) : d.diagram.ids = d.nodes.map fun q => q.1.id := by
  rw [Diagram.ids, h.nodes_diagram, List.map_map]
  exact List.map_congr_left fun q _ => d.id_styled q.1

/-- **What an orderly draft resolves to is valid**, its nodes have ids, and they satisfy `p` if no
attributes were recorded. -/
theorem Orderly.resolve (h : d.Orderly p) {source : List Char} {e : Diagram}
    (hok : d.resolve source = .ok e) :
    e.validate = .ok () ∧ (∀ n ∈ e.nodes, n.id ≠ "") ∧ (d.styles = [] → ∀ n ∈ e.nodes, p n) := by
  obtain ⟨⟨-, hends, -⟩, rfl⟩ := resolve_eq_ok_iff.1 hok
  refine ⟨?_, ?_, ?_⟩
  · rw [Diagram.validate_eq_ok_iff, edges_diagram, h.ids_diagram]
    exact List.forall_mem_map.2 (undeclaredEnds_eq_nil_iff.1 hends)
  · rw [h.nodes_diagram]
    refine List.forall_mem_map.2 fun q hq => ?_
    rw [id_styled]
    exact h.id_ne_empty q hq
  · intro hstyles
    rw [h.nodes_diagram]
    refine List.forall_mem_map.2 fun q hq => ?_
    rw [styled, hstyles]
    exact h.holds q hq

/-- **What a reader that records no attributes accepts** is valid, and every node has an id and
satisfies `p`. -/
theorem Steps.resolve (h : Steps p False {} d) {source : List Char} {e : Diagram}
    (hok : d.resolve source = .ok e) : e.validate = .ok () ∧ ∀ n ∈ e.nodes, n.id ≠ "" ∧ p n := by
  obtain ⟨hvalid, hids, hholds⟩ := ((orderly_empty p).steps h).resolve hok
  exact ⟨hvalid, fun n hn => ⟨hids n hn, hholds h.styles_eq n hn⟩⟩

end Draft

end Flowchart
