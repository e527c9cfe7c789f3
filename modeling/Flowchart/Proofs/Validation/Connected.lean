import Flowchart.Proofs.Diagram
import Flowchart.Proofs.Graph.Leads
import Flowchart.Validation.Rule

/-!
# Which nodes are reported as disconnected

The rule for connected graphs searches from the first node along edges in both directions. The search
does not ask whether an end of an edge is a node, so **it goes through ids that are no node**, and two
parts of a diagram that dangling edges join at such an id count as connected. The rule reports exactly
the nodes that no path at all joins to the first one. Those are the nodes that no path through nodes
joins to it exactly if no node is joined to it by way of missing ids only; without dangling edges this
is always so.
-/

namespace Flowchart

namespace Diagram

variable {d : Diagram} {u v id : String}

/-! ## Undirected paths -/

/-- A path along edges in any direction, which may run through ids that are no node. -/
def Linked (d : Diagram) : String → String → Prop :=
  Relation.ReflTransGen (Relation.SymmGen fun u v => (u, v) ∈ d.edges.map Edge.ends)

/-- A path along edges in any direction that runs through nodes only. -/
def LinkedByNodes (d : Diagram) : String → String → Prop :=
  Relation.ReflTransGen (Relation.SymmGen (d.Joins d.edges))

theorem mem_map_ends_iff :
    (u, v) ∈ d.edges.map Edge.ends ↔ ∃ e ∈ d.edges, e.source = u ∧ e.target = v := by
  simp only [List.mem_map, Edge.ends, Prod.mk.injEq]

/-- A path through nodes is a path. -/
theorem LinkedByNodes.linked (h : d.LinkedByNodes u v) : d.Linked u v := by
  refine Relation.ReflTransGen.mono (fun a b hab => ?_) u v h
  refine hab.imp ?_ ?_
  · rintro ⟨e, he, -, hends⟩
    exact mem_map_ends_iff.2 ⟨e, he, hends⟩
  · rintro ⟨e, he, -, hends⟩
    exact mem_map_ends_iff.2 ⟨e, he, hends⟩

/-- **Without dangling edges every path runs through nodes.** -/
theorem Linked.linkedByNodes (hvalid : d.validate = .ok ()) (h : d.Linked u v) :
    d.LinkedByNodes u v := by
  have hjoins : ∀ a b, (a, b) ∈ d.edges.map Edge.ends → d.Joins d.edges a b := by
    intro a b hab
    obtain ⟨e, he, hsource, htarget⟩ := mem_map_ends_iff.1 hab
    exact ⟨e, he, connects_iff.2 (validate_eq_ok_iff.1 hvalid e he), hsource, htarget⟩
  exact Relation.ReflTransGen.mono (fun a b hab => hab.imp (hjoins a b) (hjoins b a)) u v h

/-- The node is not joined to the first one by a path of this kind. -/
def IsApart (d : Diagram) (path : String → String → Prop) (id : String) : Prop :=
  id ∈ d.ids ∧ ∃ first ∈ d.ids.head?, ¬ path first id

end Diagram

/-! ## The search -/

namespace Rule

variable {d : Diagram} {u v id first : String}

/-- Two ids are joined if an edge has them as its ends, in either direction. -/
theorem mem_joined_iff :
    v ∈ joined d u ↔ Relation.SymmGen (fun u v => (u, v) ∈ d.edges.map Edge.ends) u v := by
  show v ∈ joined d u ↔ (u, v) ∈ d.edges.map Edge.ends ∨ (v, u) ∈ d.edges.map Edge.ends
  rw [joined, List.mem_flatMap, Diagram.mem_map_ends_iff, Diagram.mem_map_ends_iff, ← exists_or]
  refine exists_congr fun e => ?_
  rw [List.mem_append, List.mem_ite_nil_right, List.mem_ite_nil_right, List.mem_singleton,
    List.mem_singleton]
  grind

/-- Where the search can get: the nodes and the ends of the edges. -/
def named (d : Diagram) : List String := d.ids ++ d.edges.flatMap fun e => [e.source, e.target]

theorem length_named (d : Diagram) : (named d).length = d.nodes.length + 2 * d.edges.length := by
  rw [named, List.length_append, List.length_flatMap, Diagram.ids, List.length_map]
  simp [Nat.mul_comm]

/-- What an id is joined with is named in the diagram. -/
theorem joined_subset_named (d : Diagram) (id : String) : joined d id ⊆ named d := by
  intro v hv
  refine List.mem_append_right _ (List.mem_flatMap.2 ?_)
  rcases mem_joined_iff.1 hv with hends | hends
  · obtain ⟨e, he, -, rfl⟩ := Diagram.mem_map_ends_iff.1 hends
    exact ⟨e, he, by simp⟩
  · obtain ⟨e, he, rfl, -⟩ := Diagram.mem_map_ends_iff.1 hends
    exact ⟨e, he, by simp⟩

/-- **The rule finds the nodes that no path joins to the first one.** -/
theorem mem_disconnectedIds_iff : id ∈ disconnectedIds d ↔ d.IsApart d.Linked id := by
  unfold disconnectedIds Diagram.IsApart
  cases hids : d.ids with
  | nil => simp
  | cons first rest =>
    have hfirst : first ∈ named d := List.mem_append_left _ (hids ▸ List.mem_cons_self)
    have hsearch := Search.mem_explore_self_iff (v := id) hfirst (joined_subset_named d)
      (length_named d).le
    have hpath : Relation.ReflTransGen (fun a b => b ∈ joined d a) first id ↔ d.Linked first id := by
      have hstep : (fun a b => b ∈ joined d a) =
          Relation.SymmGen fun u v => (u, v) ∈ d.edges.map Edge.ends := by
        funext a b
        exact propext mem_joined_iff
      rw [hstep, Diagram.Linked]
    dsimp only
    rw [List.mem_filter, Bool.not_eq_true', ← Bool.not_eq_true, List.contains_iff_mem, hsearch,
      hpath]
    simp

/-- The disconnected ids come in the order of the nodes. -/
theorem disconnectedIds_sublist (d : Diagram) : (disconnectedIds d).Sublist d.ids := by
  unfold disconnectedIds
  cases d.ids with
  | nil => exact .slnil
  | cons first rest => exact List.filter_sublist

/-! ## The report -/

/-- The issues are one warning, which names the first five of these nodes in the order in which they
were inserted, or there are neither such nodes nor issues. -/
structure Reports (d : Diagram) (apart : String → Prop) (issues : List Issue) : Prop where
  ne_nil_iff : issues ≠ [] ↔ ∃ id, apart id
  warning : issues ≠ [] → ∃ ids issue, issues = [issue] ∧ ids.Sublist d.ids ∧
    (∀ id, id ∈ ids ↔ apart id) ∧ issue.rule = "connected-graph" ∧ issue.severity = .warning ∧
    issue.finding = .disconnected ids ∧ issue.finding.message =
      "graph is not fully connected; disconnected nodes: " ++ ", ".intercalate (ids.take 5)

theorem Reports.congr {p q : String → Prop} {issues : List Issue} (h : Reports d p issues)
    (hpq : ∀ id, p id ↔ q id) : Reports d q issues := by
  obtain rfl : p = q := funext fun id => propext (hpq id)
  exact h

/-- One list of issues reports one set of nodes. -/
theorem Reports.unique {p q : String → Prop} {issues : List Issue} (hp : Reports d p issues)
    (hq : Reports d q issues) (id : String) : p id ↔ q id := by
  by_cases hissues : issues = []
  · have hno : ∀ {r : String → Prop}, Reports d r issues → ¬ r id := fun h hr =>
      h.ne_nil_iff.2 ⟨id, hr⟩ hissues
    exact iff_of_false (hno hp) (hno hq)
  · obtain ⟨ids, issue, hissue, -, hmem, -, -, hfinding, -⟩ := hp.warning hissues
    obtain ⟨ids', issue', hissue', -, hmem', -, -, hfinding', -⟩ := hq.warning hissues
    obtain rfl := List.singleton_inj.1 (hissue.symm.trans hissue')
    obtain rfl := Finding.disconnected.inj (hfinding.symm.trans hfinding')
    exact (hmem id).symm.trans (hmem' id)

/-- **The check reports the nodes that are apart** by the edges as they are followed. -/
theorem reports_connectedGraph (d : Diagram) :
    Reports d (d.IsApart d.Linked) (connectedGraph.check d) := by
  have hmem : ∀ id, id ∈ disconnectedIds d ↔ d.IsApart d.Linked id :=
    fun id => mem_disconnectedIds_iff
  have hsublist := disconnectedIds_sublist d
  rw [check, findings]
  cases hfound : disconnectedIds d with
  | nil =>
    rw [hfound] at hmem
    refine ⟨iff_of_false (fun h => h rfl) ?_, fun h => absurd rfl h⟩
    rintro ⟨id, hid⟩
    exact List.not_mem_nil ((hmem id).2 hid)
  | cons id rest =>
    rw [hfound] at hmem hsublist
    refine ⟨iff_of_true (List.cons_ne_nil _ _) ⟨id, (hmem id).1 List.mem_cons_self⟩, fun _ => ?_⟩
    exact ⟨id :: rest, _, rfl, hsublist, hmem, rfl, rfl, rfl, rfl⟩

/-- **The rule for connected graphs is exact about paths through any ids.** It reports the nodes that
no path of edges joins to the first one. It reports the nodes that no path through nodes joins to the
first one exactly if no node is joined to it by way of missing ids only, and so for every diagram
without dangling edges. -/
theorem connectedGraph_isExact (d : Diagram) :
    Reports d (d.IsApart d.Linked) (connectedGraph.check d) ∧
      (Reports d (d.IsApart d.LinkedByNodes) (connectedGraph.check d) ↔
        ∀ first ∈ d.ids.head?, ∀ id ∈ d.ids, d.Linked first id → d.LinkedByNodes first id) ∧
      (d.validate = .ok () →
        Reports d (d.IsApart d.LinkedByNodes) (connectedGraph.check d)) := by
  have hreports := reports_connectedGraph d
  have hiff : Reports d (d.IsApart d.LinkedByNodes) (connectedGraph.check d) ↔
      ∀ first ∈ d.ids.head?, ∀ id ∈ d.ids, d.Linked first id → d.LinkedByNodes first id := by
    constructor
    · intro hnodes first hfirst id hid hlinked
      by_contra hno
      obtain ⟨-, other, hother, hapart⟩ := (hreports.unique hnodes id).2 ⟨hid, first, hfirst, hno⟩
      obtain rfl := Option.mem_unique hfirst hother
      exact hapart hlinked
    · intro hpaths
      refine hreports.congr fun id => and_congr_right fun hid => exists_congr fun first => ?_
      refine and_congr_right fun hfirst => not_congr ⟨hpaths first hfirst id hid, ?_⟩
      exact Diagram.LinkedByNodes.linked
  exact ⟨hreports, hiff, fun hvalid => hiff.2 fun _ _ _ _ h => h.linkedByNodes hvalid⟩

/-- Two nodes with an edge each to an id that is no node. -/
def bridged : Diagram := .of
  [⟨"a", "Left", .unspecified, .empty⟩, ⟨"b", "Right", .unspecified, .empty⟩]
  [⟨"a", "ghost", none, .plain⟩, ⟨"b", "ghost", none, .plain⟩]
  .empty (by decide)

/-- **Nothing is reported about two nodes that a missing id joins**, although no path through nodes
does. -/
theorem connectedGraph_bridged :
    connectedGraph.check bridged = [] ∧ bridged.IsApart bridged.LinkedByNodes "b" ∧
      ¬ Reports bridged (bridged.IsApart bridged.LinkedByNodes) (connectedGraph.check bridged) := by
  have hcheck : connectedGraph.check bridged = [] := by decide
  have hdangling : (bridged.edges.all fun e => !bridged.connects e) = true := by decide
  have hno : ∀ u v, ¬ bridged.Joins bridged.edges u v := by
    rintro u v ⟨e, he, hconnects, -⟩
    have hconnects' := List.all_eq_true.1 hdangling e he
    rw [hconnects] at hconnects'
    exact absurd hconnects' (by decide)
  have hapart : bridged.IsApart bridged.LinkedByNodes "b" := by
    refine ⟨by decide, "a", by decide, fun hpath => ?_⟩
    have hsame := (Relation.reflTransGen_iff_eq fun v hv => hv.elim (hno _ _) (hno _ _)).1 hpath
    exact absurd hsame (by decide)
  refine ⟨hcheck, hapart, fun hreports => ?_⟩
  exact hreports.ne_nil_iff.2 ⟨"b", hapart⟩ hcheck

end Rule

end Flowchart
