import Flowchart.Change.Merge
import Flowchart.Proofs.Graph.Leads
import Flowchart.Proofs.Keyed

/-!
# What merging keeps

Both ways of merging go through their edges with what they have seen so far, so **what stays is the
first of each**: of each edge in a union, of each pair of ends in an intersection.

In a union a node stands where its id came first and is the one that came last, since inserting a
node with a known id replaces it in its place. Of the three diagrams the last one that has the node
decides, and an edge keeps the ends that it had in its own diagram.

In an intersection an edge of one descendant stays if an edge of the other joins the same nodes.
Whether two nodes are joined in both does not depend on which descendant comes first; only what the
nodes and the edges look like does.
-/

namespace Flowchart

/-! ## The first of each -/

/-- What is new each time is the first of each. -/
theorem Search.fresh_eq {α : Type} [DecidableEq α] (items : List α) :
    Search.fresh [] items = Keyed.firstOfEach id items :=
  Keyed.eq_firstOfEach id (fun _ => rfl) (fun _ _ _ h => if_pos h) (fun _ _ _ h => if_neg h) items

namespace Diagram

/-- The first edge of each pair is the first one with its ends. -/
theorem firstOfPairs_eq (edges : List Edge) :
    firstOfPairs [] edges = Keyed.firstOfEach Edge.ends edges :=
  Keyed.eq_firstOfEach Edge.ends (fun _ => rfl) (fun _ _ _ h => if_pos h) (fun _ _ _ h => if_neg h) edges

variable {d base ours theirs : Diagram} {nodes : List Node} {e : Edge} {u v : String}

/-! ## Diagrams of some nodes -/

/-- The ids of a diagram of nodes are theirs, each at the place where it comes first. -/
theorem ids_ofNodes (nodes : List Node) (metadata : Dictionary) :
    (ofNodes nodes metadata).ids = Keyed.firstOfEach id (nodes.map Node.id) := by
  have hnone : (([] : List Node).map Node.id).Nodup := List.nodup_nil
  rw [ids, nodes_ofNodes_eq_putAll]
  exact Keyed.map_key_putAll Node.id hnone nodes

/-- An id finds the last node that has it. -/
theorem node?_ofNodes (nodes : List Node) (metadata : Dictionary) (id : String) :
    (ofNodes nodes metadata).node? id = (nodes.filter fun n => n.id = id).getLast? := by
  rw [node?_eq_find?, nodes_ofNodes_eq_putAll]
  exact (Keyed.find?_putAll Node.id id [] nodes).trans Option.or_none

/-- An id picks the node that it finds. -/
theorem filter_nodes_eq (d : Diagram) (id : String) :
    (d.nodes.filter fun n => n.id = id) = (d.node? id).toList := by
  cases hn : d.node? id with
  | none =>
    rw [Option.toList_none, List.filter_eq_nil_iff]
    intro n hmem hid
    refine node?_eq_none_iff.1 hn ?_
    rw [← of_decide_eq_true hid]
    exact List.mem_map_of_mem hmem
  | some n =>
    obtain ⟨hmem, rfl⟩ := node?_eq_some_iff.1 hn
    exact Keyed.filter_key_eq Node.id d.nodup hmem

/-! ## Union -/

/-- The ids of a union are those of all three diagrams, each where it comes first. -/
theorem ids_merge_union : (base.merge ours theirs .union).ids =
    Keyed.firstOfEach id (base.ids ++ ours.ids ++ theirs.ids) := by
  have hids := ids_ofNodes (base.nodes ++ ours.nodes ++ theirs.nodes) ours.metadata
  rw [List.map_append, List.map_append] at hids
  exact hids

/-- **The last diagram that has the node decides.** -/
theorem node?_merge_union (id : String) : (base.merge ours theirs .union).node? id =
    (theirs.node? id).or ((ours.node? id).or (base.node? id)) := by
  have hnode := node?_ofNodes (base.nodes ++ ours.nodes ++ theirs.nodes) ours.metadata id
  have hlast : ∀ found : Option Node, found.toList.getLast? = found := by
    intro found
    cases found <;> rfl
  rw [List.filter_append, List.filter_append, filter_nodes_eq, filter_nodes_eq, filter_nodes_eq,
    List.getLast?_append, List.getLast?_append, hlast, hlast, hlast] at hnode
  exact hnode

/-- So are its edges. -/
theorem edges_merge_union : (base.merge ours theirs .union).edges =
    Keyed.firstOfEach id (base.edges ++ ours.edges ++ theirs.edges) :=
  Search.fresh_eq _

theorem mem_ids_merge_union_iff : u ∈ (base.merge ours theirs .union).ids ↔
    u ∈ base.ids ∨ u ∈ ours.ids ∨ u ∈ theirs.ids := by
  rw [ids_merge_union, Keyed.mem_firstOfEach_id, List.mem_append, List.mem_append, or_assoc]

theorem mem_edges_merge_union_iff : e ∈ (base.merge ours theirs .union).edges ↔
    e ∈ base.edges ∨ e ∈ ours.edges ∨ e ∈ theirs.edges := by
  rw [edges_merge_union, Keyed.mem_firstOfEach_id, List.mem_append, List.mem_append, or_assoc]

theorem nodup_edges_merge_union : (base.merge ours theirs .union).edges.Nodup := by
  have hnodup := Keyed.nodup_map_firstOfEach id (base.edges ++ ours.edges ++ theirs.edges)
  rwa [List.map_id, ← edges_merge_union] at hnodup

/-- An edge keeps the ends that it had in its own diagram. -/
theorem danglingEdges_merge_union (hbase : base.danglingEdges = []) (hours : ours.danglingEdges = [])
    (htheirs : theirs.danglingEdges = []) : (base.merge ours theirs .union).danglingEdges = [] := by
  rw [danglingEdges_eq_nil_iff] at hbase hours htheirs ⊢
  intro e he
  rw [mem_ids_merge_union_iff, mem_ids_merge_union_iff]
  rcases mem_edges_merge_union_iff.1 he with he | he | he
  · exact ⟨Or.inl (hbase e he).1, Or.inl (hbase e he).2⟩
  · exact ⟨Or.inr (Or.inl (hours e he).1), Or.inr (Or.inl (hours e he).2)⟩
  · exact ⟨Or.inr (Or.inr (htheirs e he).1), Or.inr (Or.inr (htheirs e he).2)⟩

/-- **A union keeps everything once.** The ids of the three diagrams stand in the order in which they
come first, each with the node of the last diagram that has it; the edges are those of the three
diagrams without those equal to an earlier one, so none occurs twice and none is lost; the metadata is
that of `ours`; and nothing dangles that did not dangle before. -/
theorem merge_union_keepsOnce (base ours theirs : Diagram) :
    (base.merge ours theirs .union).ids =
        Keyed.firstOfEach id (base.ids ++ ours.ids ++ theirs.ids) ∧
      (∀ id, (base.merge ours theirs .union).node? id =
        (theirs.node? id).or ((ours.node? id).or (base.node? id))) ∧
      (base.merge ours theirs .union).edges =
        Keyed.firstOfEach id (base.edges ++ ours.edges ++ theirs.edges) ∧
      (base.merge ours theirs .union).edges.Nodup ∧
      (∀ e, e ∈ (base.merge ours theirs .union).edges ↔
        e ∈ base.edges ∨ e ∈ ours.edges ∨ e ∈ theirs.edges) ∧
      (base.merge ours theirs .union).metadata = ours.metadata ∧
      (base.danglingEdges = [] → ours.danglingEdges = [] → theirs.danglingEdges = [] →
        (base.merge ours theirs .union).danglingEdges = []) :=
  ⟨ids_merge_union, node?_merge_union, edges_merge_union, nodup_edges_merge_union,
    fun _ => mem_edges_merge_union_iff, rfl, danglingEdges_merge_union⟩

/-- A step and a copy of it. -/
def outline : Diagram := .of
  [{ id := "a", label := "A" }, { id := "b", label := "B" }]
  [{ source := "a", target := "b" }, { source := "a", target := "b" }]
  .empty (by decide)

/-- The outline went on at `b`. -/
def ourOutline : Diagram := .of
  [{ id := "b", label := "Our B" }, { id := "c", label := "C" }]
  [{ source := "b", target := "c" }]
  (.ofList [("title", "Ours")]) (by decide)

/-- The outline began earlier and keeps its step to `b`. -/
def theirOutline : Diagram := .of
  [{ id := "d", label := "D" }, { id := "b", label := "Their B" },
    { id := "a", label := "A" }]
  [{ source := "d", target := "a" }, { source := "a", target := "b" }]
  .empty (by decide)

theorem merge_union_keepsOnce_outline :
    (outline.danglingEdges = [] ∧ ourOutline.danglingEdges = [] ∧ theirOutline.danglingEdges = []) ∧
      (outline.merge ourOutline theirOutline .union).ids = ["a", "b", "c", "d"] ∧
      (outline.merge ourOutline theirOutline .union).node? "b" =
        some { id := "b", label := "Their B" } ∧
      (outline.merge ourOutline theirOutline .union).edges = [{ source := "a", target := "b" },
        { source := "b", target := "c" }, { source := "d", target := "a" }] ∧
      (outline.merge ourOutline theirOutline .union).danglingEdges = [] := by
  obtain ⟨hids, hnode, hedges, -, -, -, hdangling⟩ :=
    merge_union_keepsOnce outline ourOutline theirOutline
  have hbase : outline.danglingEdges = [] := by decide
  have hours : ourOutline.danglingEdges = [] := by decide
  have htheirs : theirOutline.danglingEdges = [] := by decide
  refine ⟨⟨hbase, hours, htheirs⟩, ?_, ?_, ?_, hdangling hbase hours htheirs⟩
  · rw [hids]
    decide
  · rw [hnode]
    decide
  · rw [hedges]
    decide

/-! ## Intersection -/

/-- In both diagrams an edge joins the two nodes, so both diagrams have both of them. -/
def BothJoin (ours theirs : Diagram) (u v : String) : Prop :=
  ours.Joins ours.edges u v ∧ theirs.Joins theirs.edges u v

instance (ours theirs : Diagram) (u v : String) : Decidable (ours.BothJoin theirs u v) :=
  inferInstanceAs (Decidable (_ ∧ _))

/-- Joining in both diagrams is symmetric in the two. -/
theorem bothJoin_comm : ours.BothJoin theirs u v ↔ theirs.BothJoin ours u v := and_comm

/-- The nodes of a diagram that another one has too. -/
theorem nodes_merge_intersection : (base.merge ours theirs .intersection).nodes =
    ours.nodes.filter fun n => n.id ∈ theirs.ids := by
  have hshared : (fun n => theirs.contains n.id) = fun n : Node => decide (n.id ∈ theirs.ids) := by
    funext n
    rw [Bool.eq_iff_iff, contains_iff_mem_ids, decide_eq_true_iff]
  rw [← hshared]
  exact nodes_ofNodes (ours.nodup.sublist (List.filter_sublist.map Node.id)) base.metadata

/-- The ids of an intersection are those that both descendants have. -/
theorem mem_ids_merge_intersection_iff : u ∈ (base.merge ours theirs .intersection).ids ↔
    u ∈ ours.ids ∧ u ∈ theirs.ids := by
  have hids : (base.merge ours theirs .intersection).ids =
      ours.ids.filter fun id => id ∈ theirs.ids := by
    show (base.merge ours theirs .intersection).nodes.map Node.id =
      (ours.nodes.map Node.id).filter fun id => id ∈ theirs.ids
    rw [nodes_merge_intersection, List.filter_map]
    rfl
  rw [hids, List.mem_filter, decide_eq_true_iff]

/-- **Which edges count**: those of `ours` whose ends are joined in both. -/
theorem edges_merge_intersection : (base.merge ours theirs .intersection).edges =
    Keyed.firstOfEach Edge.ends (ours.edges.filter fun e => ours.BothJoin theirs e.source e.target) := by
  have hshared : ∀ e ∈ ours.edges, ((base.merge ours theirs .intersection).connects e &&
      theirs.edges.any fun f => f.source == e.source && f.target == e.target) =
        decide (ours.BothJoin theirs e.source e.target) := by
    intro e he
    rw [Bool.eq_iff_iff, Bool.and_eq_true, decide_eq_true_iff, connects_iff,
      mem_ids_merge_intersection_iff, mem_ids_merge_intersection_iff, List.any_eq_true]
    constructor
    · rintro ⟨⟨hsource, htarget⟩, f, hf, hends⟩
      rw [Bool.and_eq_true, beq_iff_eq, beq_iff_eq] at hends
      refine ⟨⟨e, he, connects_iff.2 ⟨hsource.1, htarget.1⟩, rfl, rfl⟩, f, hf, ?_, hends⟩
      rw [connects_iff, hends.1, hends.2]
      exact ⟨hsource.2, htarget.2⟩
    · rintro ⟨hours, htheirs⟩
      obtain ⟨f, hf, -, hsource, htarget⟩ := id htheirs
      refine ⟨⟨⟨hours.mem_ids.1, htheirs.mem_ids.1⟩, hours.mem_ids.2, htheirs.mem_ids.2⟩, f, hf, ?_⟩
      rw [hsource, htarget, beq_self_eq_true, beq_self_eq_true]
      rfl
  rw [← List.filter_congr hshared, ← firstOfPairs_eq]
  rfl

/-- A pair of ends stays exactly if it is joined in both. -/
theorem mem_ends_merge_intersection_iff :
    (u, v) ∈ (base.merge ours theirs .intersection).edges.map Edge.ends ↔
      ours.BothJoin theirs u v := by
  rw [edges_merge_intersection, Keyed.mem_map_firstOfEach, List.mem_map]
  constructor
  · rintro ⟨e, he, hends⟩
    obtain ⟨rfl, rfl⟩ := Prod.mk.inj hends
    exact of_decide_eq_true (List.mem_filter.1 he).2
  · intro hboth
    obtain ⟨e, he, -, rfl, rfl⟩ := id hboth.1
    exact ⟨e, List.mem_filter.2 ⟨he, decide_eq_true hboth⟩, rfl⟩

/-- **Of the edges between joined nodes the first one stays.** -/
theorem edgesBetween_merge_intersection (base ours theirs : Diagram) (u v : String) :
    (base.merge ours theirs .intersection).edgesBetween u v =
      if ours.BothJoin theirs u v then (ours.edgesBetween u v).take 1 else [] := by
  have hends : (ours.edges.filter fun e => ours.BothJoin theirs e.source e.target).filter
      (fun e => e.ends = (u, v)) =
        if ours.BothJoin theirs u v then ours.edgesBetween u v else [] := by
    rw [List.filter_filter]
    split
    · next hboth =>
      refine List.filter_congr fun e _ => ?_
      rw [Bool.eq_iff_iff, Bool.and_eq_true, decide_eq_true_iff, decide_eq_true_iff,
        and_iff_left_iff_imp]
      intro hends
      obtain ⟨rfl, rfl⟩ := Prod.mk.inj hends
      exact hboth
    · next hnot =>
      rw [List.filter_eq_nil_iff]
      intro e _ hboth
      rw [Bool.and_eq_true, decide_eq_true_iff, decide_eq_true_iff] at hboth
      obtain ⟨rfl, rfl⟩ := Prod.mk.inj hboth.1
      exact hnot hboth.2
  rw [edgesBetween, edges_merge_intersection, Keyed.filter_firstOfEach, hends, ← List.take_one]
  split
  · rfl
  · exact List.take_nil

/-- **No edge of an intersection dangles**: only edges between its nodes are kept. -/
theorem danglingEdges_merge_intersection (base ours theirs : Diagram) :
    (base.merge ours theirs .intersection).danglingEdges = [] := by
  rw [danglingEdges_eq_nil_iff]
  intro e he
  obtain ⟨hours, htheirs⟩ := mem_ends_merge_intersection_iff.1 (List.mem_map.2 ⟨e, he, rfl⟩)
  rw [mem_ids_merge_intersection_iff, mem_ids_merge_intersection_iff]
  exact ⟨⟨hours.mem_ids.1, htheirs.mem_ids.1⟩, hours.mem_ids.2, htheirs.mem_ids.2⟩

/-- **An intersection is consistent and symmetric.** It has the nodes of `ours` that `theirs` has too,
in their order and as they are, and the metadata of the base. Of its edges there is one for each pair
of nodes that both diagrams join, the first of `ours`, in the order of `ours`; so none dangles and
none is parallel to another. Exchanging `ours` and `theirs` leaves the same ids and the same pairs of
ends. -/
theorem merge_intersection_isConsistent (base ours theirs : Diagram) :
    (base.merge ours theirs .intersection).nodes =
        ours.nodes.filter (fun n => n.id ∈ theirs.ids) ∧
      (base.merge ours theirs .intersection).metadata = base.metadata ∧
      (base.merge ours theirs .intersection).edges = Keyed.firstOfEach Edge.ends
        (ours.edges.filter fun e => ours.BothJoin theirs e.source e.target) ∧
      (∀ u v, (base.merge ours theirs .intersection).edgesBetween u v =
        if ours.BothJoin theirs u v then (ours.edgesBetween u v).take 1 else []) ∧
      (base.merge ours theirs .intersection).danglingEdges = [] ∧
      ((base.merge ours theirs .intersection).edges.map Edge.ends).Nodup ∧
      (∀ id, id ∈ (base.merge ours theirs .intersection).ids ↔
        id ∈ (base.merge theirs ours .intersection).ids) ∧
      ∀ ends, ends ∈ (base.merge ours theirs .intersection).edges.map Edge.ends ↔
        ends ∈ (base.merge theirs ours .intersection).edges.map Edge.ends := by
  refine ⟨nodes_merge_intersection, rfl, edges_merge_intersection,
    base.edgesBetween_merge_intersection ours theirs, base.danglingEdges_merge_intersection ours theirs,
    ?_, ?_, ?_⟩
  · rw [edges_merge_intersection]
    exact Keyed.nodup_map_firstOfEach Edge.ends _
  · intro id
    rw [mem_ids_merge_intersection_iff, mem_ids_merge_intersection_iff, and_comm]
  · rintro ⟨u, v⟩
    rw [mem_ends_merge_intersection_iff, mem_ends_merge_intersection_iff, bothJoin_comm]

end Diagram

end Flowchart
