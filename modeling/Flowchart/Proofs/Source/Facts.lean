import Flowchart.Proofs.Diagram
import Flowchart.Source.Draft
import Flowchart.Source.Statement
import Mathlib

/-!
# What statements say

Whatever the notation, a statement says one thing about the diagram: a `Fact`. `Draft.Gains` relates
a draft before and after it has gained a fact, places in the source left open, and
`Draft.Holds d facts` says that a draft holds these facts, nothing else and no problem.

* A step: a draft that holds facts and gains one more holds it too, unless it names a node twice.
* A run: reading statements one after the other gains their facts in order.
* The end: a draft that holds facts in which every node that is named is declared once resolves to
  the diagram of these facts.
-/

namespace Flowchart

/-! ## Facts -/

/-- What one statement can say about a diagram. -/
inductive Fact where
  | node (n : Node)
  | edge (e : Edge)
  | style (id : String) (attributes : List (String × String))
  | title (text : String)
  | direction (d : Direction)
  | nothing

namespace Fact

/-- The node that is declared. -/
def node? : Fact → Option Node
  | node n => some n
  | _ => none

/-- The edge that is added. -/
def edge? : Fact → Option Edge
  | edge e => some e
  | _ => none

/-- The attributes that are given to a node. -/
def style? : Fact → Option (String × List (String × String))
  | style id attributes => some (id, attributes)
  | _ => none

/-- The title that is set. -/
def title? : Fact → Option String
  | title text => some text
  | _ => none

/-- The direction that is set. -/
def direction? : Fact → Option Direction
  | direction d => some d
  | _ => none

end Fact

/-- The ids of the nodes that facts declare. -/
def Fact.ids (facts : List Fact) : List String := (facts.filterMap node?).map Node.id

/-- Every node that is named is declared, once and with an id. -/
structure Fact.Sound (facts : List Fact) : Prop where
  nodup_ids : (Fact.ids facts).Nodup
  id_ne_empty : ∀ n ∈ facts.filterMap node?, n.id ≠ ""
  edge_ends : ∀ e ∈ facts.filterMap edge?, e.source ∈ Fact.ids facts ∧ e.target ∈ Fact.ids facts
  style_ids : ∀ s ∈ facts.filterMap style?, s.1 ∈ Fact.ids facts

/-- What facts say about a diagram, in the order in which they say it. -/
structure Fact.Describes (facts : List Fact) (title? : Option String) (direction : Direction)
    (nodes : List Node) (edges : List Edge) (styles : List (String × List (String × String))) :
    Prop where
  node_eq : facts.filterMap node? = nodes
  edge_eq : facts.filterMap edge? = edges
  style_eq : facts.filterMap style? = styles
  title_eq : facts.filterMap Fact.title? = title?.toList
  direction_eq : facts.filterMap direction? = [direction]

/-- Title and direction, then the nodes, the edges and the styles. -/
theorem Fact.Describes.append {head : List Fact} {title? : Option String} {direction : Direction}
    (h : Describes head title? direction [] [] []) (nodes : List Node) (edges : List Edge)
    (styles : List (String × List (String × String))) :
    Describes (head ++ (nodes.map .node ++ (edges.map .edge ++ styles.map fun s => .style s.1 s.2)))
      title? direction nodes edges styles where
  node_eq := by
    simp [h.node_eq, List.filterMap_map, Function.comp_def, node?]
  edge_eq := by
    simp [h.edge_eq, List.filterMap_map, Function.comp_def, edge?]
  style_eq := by
    simp [h.style_eq, List.filterMap_map, Function.comp_def, style?]
  title_eq := by
    simp [h.title_eq, List.filterMap_map, Function.comp_def, Fact.title?]
  direction_eq := by
    simp [h.direction_eq, List.filterMap_map, Function.comp_def, direction?]

/-- A node with the attributes that styles give to its id. -/
def Node.withStyles (styles : List (String × List (String × String))) (n : Node) : Node :=
  (styles.filter fun s => s.1 = n.id).foldl (fun n s => n.withAttributes s.2) n

/-- Styles leave the id of a node alone. -/
theorem Node.id_withStyles (styles : List (String × List (String × String))) (n : Node) :
    (n.withStyles styles).id = n.id := by
  unfold withStyles
  generalize styles.filter _ = chosen
  induction chosen generalizing n with
  | nil => rfl
  | cons s rest ih => exact ih (n.withAttributes s.2)

namespace Draft

/-! ## One step -/

/-- A draft before and after it gains a fact. -/
inductive Gains : Fact → Draft → Draft → Prop
  | node (d : Draft) (n : Node) (span : Span) : Gains (.node n) d (d.declare n span)
  | edge (d : Draft) (e : Edge) (sourceSpan targetSpan : Span) :
      Gains (.edge e) d (d.connect e sourceSpan targetSpan)
  | style (d : Draft) (id : Spanned String) (attributes : List (String × String)) :
      Gains (.style id.value attributes) d (d.style id attributes)
  | title (d : Draft) (text : String) : Gains (.title text) d (d.setTitle text)
  | direction (d : Draft) (direction : Direction) :
      Gains (.direction direction) d (d.setDirection direction)
  | nothing (d : Draft) : Gains .nothing d d

/-- The draft holds these facts and no problem. -/
structure Holds (d : Draft) (facts : List Fact) : Prop where
  nodes_eq : d.nodes.map Prod.fst = facts.filterMap Fact.node?
  edges_eq : d.edges.map DraftEdge.edge = facts.filterMap Fact.edge?
  styles_eq : d.styles.map (fun s => (s.id.value, s.attributes)) = facts.filterMap Fact.style?
  title_eq : d.title = (facts.filterMap Fact.title?).getLast?
  direction_eq : d.direction = (facts.filterMap Fact.direction?).getLast?
  problems_eq : d.problems = []

theorem holds_empty : Holds {} [] := ⟨rfl, rfl, rfl, rfl, rfl, rfl⟩

theorem Holds.declaration?_eq_none {d : Draft} {facts : List Fact} (h : d.Holds facts) (id : String) :
    d.declaration? id = none ↔ id ∉ Fact.ids facts := by
  have hids : Fact.ids facts = d.nodes.map fun p => p.1.id := by
    rw [Fact.ids, ← h.nodes_eq, List.map_map]
    rfl
  rw [declaration?, Keyed.find?, List.find?_eq_none, hids, List.mem_map]
  simp

/-- **A draft that gains a fact holds it**, if it does not declare a node twice. -/
theorem Holds.gains {d d' : Draft} {facts : List Fact} {fact : Fact} (h : d.Holds facts)
    (hgains : Gains fact d d')
    (hnode : ∀ n, fact = .node n → n.id ≠ "" ∧ n.id ∉ Fact.ids facts) :
    d'.Holds (facts ++ [fact]) := by
  obtain ⟨hnodes, hedges, hstyles, htitle, hdirection, hproblems⟩ := h
  -- each fact goes to one field, which grows as the list of such facts does
  cases hgains with
  | node _ n span =>
    obtain ⟨hne, hnew⟩ := hnode n rfl
    have hnone : d.declaration? n.id = none :=
      (Holds.declaration?_eq_none ⟨hnodes, hedges, hstyles, htitle, hdirection, hproblems⟩ n.id).2 hnew
    have hdeclare : d.declare n span = { d with nodes := d.nodes ++ [(n, span)] } := by
      rw [declare, if_neg hne, hnone]
    rw [hdeclare]
    constructor <;> simp [Fact.node?, Fact.edge?, Fact.style?, Fact.title?, Fact.direction?, *]
  | edge =>
    constructor <;>
      simp [connect, Fact.node?, Fact.edge?, Fact.style?, Fact.title?, Fact.direction?, *]
  | style =>
    constructor <;>
      simp [style, Fact.node?, Fact.edge?, Fact.style?, Fact.title?, Fact.direction?, *]
  | title =>
    constructor <;>
      simp [setTitle, Fact.node?, Fact.edge?, Fact.style?, Fact.title?, Fact.direction?, *]
  | direction =>
    constructor <;>
      simp [setDirection, Fact.node?, Fact.edge?, Fact.style?, Fact.title?, Fact.direction?, *]
  | nothing =>
    constructor <;> simp [Fact.node?, Fact.edge?, Fact.style?, Fact.title?, Fact.direction?, *]

/-! ## A run -/

/-- A draft before and after it gains facts in order. -/
inductive GainsAll : List Fact → Draft → Draft → Prop
  | nil (d : Draft) : GainsAll [] d d
  | cons {fact : Fact} {facts : List Fact} {d d' d'' : Draft} :
      Gains fact d d' → GainsAll facts d' d'' → GainsAll (fact :: facts) d d''

/-- **A draft that gains facts in order holds them all.** -/
theorem Holds.gainsAll {d d' : Draft} {facts new : List Fact} (h : d.Holds facts)
    (hgains : GainsAll new d d') (hids : (Fact.ids (facts ++ new)).Nodup)
    (hne : ∀ n ∈ new.filterMap Fact.node?, n.id ≠ "") : d'.Holds (facts ++ new) := by
  -- along the run, the facts that are held before it growing with each step
  induction hgains generalizing facts with
  | nil => rw [List.append_nil]; exact h
  | @cons fact rest d d' d'' hfirst hrest ih =>
    rw [← List.singleton_append, ← List.append_assoc] at hids ⊢
    refine ih (h.gains hfirst ?_) hids fun n hn => hne n ?_
    · rintro n rfl
      refine ⟨hne n (by simp [Fact.node?]), fun hmem => ?_⟩
      simp only [Fact.ids, List.filterMap_append, List.filterMap_cons, List.filterMap_nil,
        Fact.node?, List.map_append, List.map_cons, List.map_nil] at hids hmem
      exact (List.nodup_append.1 (List.nodup_append.1 hids).1).2.2 _ hmem _ List.mem_cons_self rfl
    · rw [← List.singleton_append, List.filterMap_append]
      exact List.mem_append_right _ hn

/-- **Statements that each say a fact say them all in order.** The reader may keep a state of its own
around the draft, as long as these statements leave it as it was. -/
theorem gainsAll_foldl {σ : Type} (embed : Draft → σ) (step : σ → Statement → σ)
    {said : List (List Char × Fact)} {statements : List Statement}
    (hsaid : ∀ p ∈ said, ∀ d s, s.text = p.1 → ∃ d', step (embed d) s = embed d' ∧ Gains p.2 d d')
    (htexts : statements.map Statement.text = said.map Prod.fst) (d : Draft) :
    ∃ d', statements.foldl step (embed d) = embed d' ∧ GainsAll (said.map Prod.snd) d d' := by
  induction said generalizing statements d with
  | nil =>
    rw [List.map_nil, List.map_eq_nil_iff] at htexts
    subst htexts
    exact ⟨d, rfl, .nil d⟩
  | cons p rest ih =>
    rw [List.map_cons, List.map_eq_cons_iff] at htexts
    obtain ⟨s, later, rfl, hs, hlater⟩ := htexts
    obtain ⟨d', hstep, hfirst⟩ := hsaid p List.mem_cons_self d s hs
    obtain ⟨d'', hfold, hrest⟩ := ih (fun q hq => hsaid q (List.mem_cons_of_mem p hq)) hlater d'
    exact ⟨d'', by rw [List.foldl_cons, hstep, hfold], .cons hfirst hrest⟩

/-! ## The end -/

variable {d : Draft} {facts : List Fact}

/-- A draft styles a node as the facts do. -/
theorem Holds.styled_eq (h : d.Holds facts) (n : Node) :
    d.styled n = n.withStyles (facts.filterMap Fact.style?) := by
  rw [styled, Node.withStyles, ← h.styles_eq, List.filter_map, List.foldl_map]
  rfl

/-- The nodes of the diagram are those of the facts with their styles. -/
theorem Holds.nodes_diagram (h : d.Holds facts) (hnodup : (Fact.ids facts).Nodup) :
    d.diagram.nodes =
      (facts.filterMap Fact.node?).map (Node.withStyles (facts.filterMap Fact.style?)) := by
  have hstyled : (d.nodes.map fun p => d.styled p.1) =
      (facts.filterMap Fact.node?).map (Node.withStyles (facts.filterMap Fact.style?)) := by
    rw [← h.nodes_eq, List.map_map]
    exact List.map_congr_left fun p _ => h.styled_eq p.1
  rw [← hstyled]
  refine Diagram.nodes_ofNodes ?_ d.metadata
  rw [hstyled, List.map_map]
  have hid : Node.id ∘ Node.withStyles (facts.filterMap Fact.style?) = Node.id := by
    funext n
    exact n.id_withStyles _
  rw [hid]
  exact hnodup

/-- The title of the diagram is the last one that was set. -/
theorem Holds.title_diagram (h : d.Holds facts) :
    d.diagram.title? = (facts.filterMap Fact.title?).getLast? := by
  rw [← h.title_eq]
  show d.metadata.get? Diagram.titleKey = d.title
  cases htitle : d.title <;> cases hdirection : d.direction <;>
    simp [metadata, htitle, hdirection, Dictionary.get?_insert, Diagram.titleKey,
      Diagram.directionKey] <;> rfl

/-- The direction of the diagram is the last one that was set. -/
theorem Holds.direction_diagram (h : d.Holds facts) :
    d.diagram.metadata.get? Diagram.directionKey =
      ((facts.filterMap Fact.direction?).getLast?).map Direction.code := by
  rw [← h.direction_eq]
  show d.metadata.get? Diagram.directionKey = d.direction.map Direction.code
  cases htitle : d.title <;> cases hdirection : d.direction <;>
    simp [metadata, htitle, hdirection, Dictionary.get?_insert, Diagram.titleKey,
      Diagram.directionKey] <;> rfl

/-- The edges of the diagram are those of the facts. -/
theorem Holds.edges_diagram (h : d.Holds facts) : d.diagram.edges = facts.filterMap Fact.edge? := by
  rw [← h.edges_eq]
  exact List.nil_append _

/-- **A draft that holds sound facts resolves to their diagram.** -/
theorem Holds.resolve_eq (h : d.Holds facts) (hsound : Fact.Sound facts) (source : List Char) :
    d.resolve source = .ok d.diagram := by
  have hdeclared : ∀ id ∈ Fact.ids facts, (d.declaration? id).isNone = false := by
    intro id hid
    rw [Option.isNone_eq_false_iff, Option.isSome_iff_ne_none]
    exact fun hnone => (h.declaration?_eq_none id).1 hnone hid
  -- only an id that no node has is a problem
  have hends : d.undeclaredEnds = [] := by
    rw [undeclaredEnds, List.flatMap_eq_nil_iff]
    intro e he
    have hmem : e.edge ∈ facts.filterMap Fact.edge? := by
      rw [← h.edges_eq]
      exact List.mem_map_of_mem he
    obtain ⟨hsource, htarget⟩ := hsound.edge_ends e.edge hmem
    simp [hdeclared _ hsource, hdeclared _ htarget]
  have hstyles : d.undeclaredStyles = [] := by
    rw [undeclaredStyles, List.map_eq_nil_iff, List.filter_eq_nil_iff]
    intro s hs
    have hmem : (s.id.value, s.attributes) ∈ facts.filterMap Fact.style? := by
      rw [← h.styles_eq]
      exact List.mem_map_of_mem (f := fun s : DraftStyle => (s.id.value, s.attributes)) hs
    rw [hdeclared _ (hsound.style_ids _ hmem)]
    exact Bool.false_ne_true
  rw [resolve, h.problems_eq, hends, hstyles]
  rfl

/-- **Facts gained in order become the diagram they describe**, if they name nodes as they should. -/
theorem Holds.resolve_gainsAll {d' : Draft} {new : List Fact} {title? : Option String}
    {direction : Direction} {nodes : List Node} {edges : List Edge}
    {styles : List (String × List (String × String))} (h : d.Holds facts)
    (hgains : GainsAll new d d')
    (hdescribes : Fact.Describes (facts ++ new) title? direction nodes edges styles)
    (hnodup : (nodes.map Node.id).Nodup) (hne : ∀ n ∈ nodes, n.id ≠ "")
    (hends : ∀ e ∈ edges, e.source ∈ nodes.map Node.id ∧ e.target ∈ nodes.map Node.id)
    (hstyles : ∀ s ∈ styles, s.1 ∈ nodes.map Node.id) (source : List Char) :
    ∃ e, d'.resolve source = .ok e ∧ e.nodes = nodes.map (Node.withStyles styles) ∧
      e.edges = edges ∧ e.title? = title? ∧
      e.metadata.get? Diagram.directionKey = some direction.code := by
  obtain ⟨rfl, rfl, rfl, htitle, hdirection⟩ := hdescribes
  have hd' : d'.Holds (facts ++ new) := h.gainsAll hgains hnodup fun n hn => by
    refine hne n ?_
    rw [List.filterMap_append]
    exact List.mem_append_right _ hn
  refine ⟨d'.diagram, hd'.resolve_eq ⟨hnodup, hne, hends, hstyles⟩ source,
    hd'.nodes_diagram hnodup, hd'.edges_diagram, ?_, ?_⟩
  · rw [hd'.title_diagram, htitle]
    cases title? <;> rfl
  · rw [hd'.direction_diagram, hdirection]
    rfl

end Draft

end Flowchart
