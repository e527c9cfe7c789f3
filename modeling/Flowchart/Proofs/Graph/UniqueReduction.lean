import Flowchart.Proofs.Graph.Cyclicity
import Flowchart.Proofs.Graph.Reduction
import Flowchart.Proofs.Keyed

/-!
# The reduction of an acyclic diagram is unique

A pair of ends *covers* when an edge joins it and no longer walk does. The reduction decides about
each edge beside those that earlier decisions have left, yet in an acyclic diagram this does not
show: a walk that makes an edge superfluous cannot run along that edge, since it would close a
cycle, and what was dropped from it has been replaced. So **an edge is dropped exactly if its ends
do not cover or a copy of it is still to come**, and what stays does not depend on the order of the
edges, except for which of several copies it is.
-/

namespace Flowchart

/-! ## Covering edges -/

namespace Diagram

variable {d : Diagram} {edges kept rest : List Edge} {e : Edge} {a b u v : String}

/-- An edge leads from `u` to `v`, and no walk along two or more edges does. -/
structure Covers (d : Diagram) (u v : String) : Prop where
  joins : d.Joins d.edges u v
  direct : ∀ w, d.Leads d.edges u w → ¬ d.Leads d.edges w v

instance (d : Diagram) (u v : String) : Decidable (d.Covers u v) :=
  decidable_of_iff (d.Joins d.edges u v ∧
      ∀ w ∈ d.ids, ¬ (d.isReachable u w = true ∧ d.isReachable w v = true)) <| by
    simp only [isReachable_iff]
    constructor
    · exact fun h => ⟨h.1, fun w huw hwv => h.2 w huw.mem_ids.2 ⟨huw, hwv⟩⟩
    · exact fun h => ⟨h.joins, fun w _ hw => h.direct w hw.1 hw.2⟩

/-- Copies of an edge connect where it does. -/
theorem connects_congr {f : Edge} (h : f.ends = e.ends) : d.connects f = d.connects e := by
  obtain ⟨hsource, htarget⟩ := Prod.mk.inj h
  rw [Sheet.connects, Sheet.connects, hsource, htarget]

theorem Covers.connects (h : d.Covers e.source e.target) : d.connects e = true :=
  connects_iff.2 h.joins.mem_ids

/-- An edge that connects covers, unless a longer walk leads the same way. -/
theorem covers_or_exists (he : e ∈ d.edges) (hconnects : d.connects e = true) :
    d.Covers e.source e.target ∨ ∃ w, d.Leads d.edges e.source w ∧ d.Leads d.edges w e.target := by
  by_cases hwalk : ∃ w, d.Leads d.edges e.source w ∧ d.Leads d.edges w e.target
  · exact Or.inr hwalk
  · exact Or.inl ⟨⟨e, he, hconnects, rfl, rfl⟩, fun w huw hwv => hwalk ⟨w, huw, hwv⟩⟩

/-! ## Walks that avoid an edge -/

/-- A walk takes only steps that lie on its way. -/
theorem transGen_of_on_way {α : Type} {r s : α → α → Prop} {x y : α} (h : Relation.TransGen r x y)
    (hstep : ∀ p q, r p q → Relation.ReflTransGen r x p → Relation.ReflTransGen r q y → s p q) :
    Relation.TransGen s x y := by
  induction h with
  | single hxy => exact .single (hstep _ _ hxy .refl .refl)
  | tail hxy hyz ih =>
    refine (ih fun p q hpq hxp hqy => hstep p q hpq hxp (hqy.tail hyz)).tail ?_
    exact hstep _ _ hyz hxy.to_reflTransGen .refl

/-- **A walk does without an edge that does not lie on its way.** -/
theorem Leads.without (h : d.Leads (kept ++ e :: rest) a b)
    (hway : ¬ (Relation.ReflTransGen (d.Joins (kept ++ e :: rest)) a e.source ∧
      Relation.ReflTransGen (d.Joins (kept ++ e :: rest)) e.target b)) :
    d.Leads (kept ++ rest) a b := by
  refine transGen_of_on_way h ?_
  rintro p q ⟨f, hf, hconnects, rfl, rfl⟩ hbefore hafter
  refine ⟨f, ?_, hconnects, rfl, rfl⟩
  have hne : f ≠ e := by
    rintro rfl
    exact hway ⟨hbefore, hafter⟩
  rw [List.mem_append, List.mem_cons] at hf
  rw [List.mem_append]
  exact hf.imp_right fun hf => hf.resolve_left hne

/-- In an acyclic diagram a longer walk does without the edge that it makes superfluous. -/
theorem IsAcyclic.leads_without (hacyclic : d.IsAcyclic)
    (hleads : ∀ x y, d.Leads (kept ++ e :: rest) x y ↔ d.Leads d.edges x y)
    (hhead : d.Leads d.edges e.source a) (htail : d.Leads d.edges a e.target) :
    d.Leads (kept ++ rest) e.source e.target := by
  rw [← hleads] at hhead htail
  have hno : ∀ x, ¬ d.Leads (kept ++ e :: rest) x x := fun x hx => hacyclic x ((hleads x x).1 hx)
  -- along the edge the way to `a` would lead on to the target, and the way from `a` to the source
  have hfirst : d.Leads (kept ++ rest) e.source a :=
    hhead.without fun hway => hno e.target (.trans_right hway.2 htail)
  have hsecond : d.Leads (kept ++ rest) a e.target :=
    htail.without fun hway => hno e.source (.trans_left hhead hway.1)
  exact hfirst.trans hsecond

/-! ## The reduction beside earlier decisions -/

/-- An edge with its arc. -/
def wire (d : Diagram) (e : Edge) : WiredEdge d.nodes.length := ⟨e, d.arc? e⟩

/-- An edge is redundant exactly if the others lead from its source to its target. -/
theorem isRedundant_wire_iff :
    (d.wire e).isRedundant (edges.map d.wire) = true ↔ d.Leads edges e.source e.target := by
  rw [WiredEdge.isRedundant_iff]
  constructor
  · rintro ⟨i, j, harc, hleads⟩
    obtain ⟨hsource, htarget⟩ := arc?_eq_some_iff.1 harc
    rw [← hsource, ← htarget]
    exact leads_wiring_iff.1 hleads
  · intro hleads
    cases harc : d.arc? e with
    | none => exact absurd (connects_iff.2 hleads.mem_ids) (by rw [arc?_eq_none_iff.1 harc]; decide)
    | some arc =>
      obtain ⟨hsource, htarget⟩ := arc?_eq_some_iff.1 harc
      rw [← hsource, ← htarget] at hleads
      exact ⟨arc.1, arc.2, harc, leads_wiring_iff.2 hleads⟩

/-- The others lead where they led with an edge along which they lead. -/
theorem leads_cons_iff (h : d.Leads (kept ++ rest) e.source e.target) :
    d.Leads (kept ++ e :: rest) a b ↔ d.Leads (kept ++ rest) a b := by
  have hat : ∀ i j, d.Leads (kept ++ e :: rest) (d.idAt i) (d.idAt j) ↔
      d.Leads (kept ++ rest) (d.idAt i) (d.idAt j) := by
    intro i j
    rw [← isRedundant_wire_iff, List.map_append] at h
    rw [← leads_wiring_iff, ← leads_wiring_iff, List.map_append, List.map_append, List.map_cons]
    exact WiredEdge.leads_iff_of_isRedundant h
  exact ⟨leads_congr fun i j => (hat i j).1, leads_congr fun i j => (hat i j).2⟩

/-- Edges that lead nowhere else than all edges lead along a covering pair only by a copy. -/
theorem Covers.exists_mem (h : d.Covers u v)
    (hleads : ∀ x y, d.Leads edges x y → d.Leads d.edges x y) (hwalk : d.Leads edges u v) :
    ∃ f ∈ edges, f.ends = (u, v) := by
  obtain ⟨w, hstep, hrest⟩ := Relation.TransGen.head'_iff.1 hwalk
  rcases Relation.reflTransGen_iff_eq_or_transGen.1 hrest with rfl | hrest
  · obtain ⟨f, hf, -, hsource, htarget⟩ := hstep
    exact ⟨f, hf, Prod.ext hsource htarget⟩
  · exact absurd (hleads w v hrest) (h.direct w (hleads u w (.single hstep)))

/-- The edges that cover, of each pair of ends the last. -/
def coveringEdges (d : Diagram) (edges : List Edge) : List Edge :=
  Keyed.lastOfEach Edge.ends (edges.filter fun e => d.Covers e.source e.target)

/-- An edge stays if it covers and no copy of it is to come. -/
theorem coveringEdges_cons (d : Diagram) (e : Edge) (rest : List Edge) :
    d.coveringEdges (e :: rest) =
      if d.Covers e.source e.target ∧ ¬ ∃ f ∈ rest, f.ends = e.ends then e :: d.coveringEdges rest
      else d.coveringEdges rest := by
  by_cases hcovers : d.Covers e.source e.target
  · have hcopies : (∃ f ∈ rest.filter fun e => d.Covers e.source e.target, f.ends = e.ends) ↔
        ∃ f ∈ rest, f.ends = e.ends := by
      constructor
      · rintro ⟨f, hf, hends⟩
        exact ⟨f, List.mem_of_mem_filter hf, hends⟩
      · rintro ⟨f, hf, hends⟩
        obtain ⟨hsource, htarget⟩ := Prod.mk.inj hends
        exact ⟨f, List.mem_filter.2 ⟨hf, decide_eq_true (by rwa [hsource, htarget])⟩, hends⟩
    rw [coveringEdges, List.filter_cons_of_pos (by simpa using hcovers), Keyed.lastOfEach_cons,
      coveringEdges]
    simp only [hcopies, hcovers, true_and, ite_not]
  · rw [coveringEdges, List.filter_cons_of_neg (by simpa using hcovers), if_neg (hcovers ·.1),
      coveringEdges]

/-- **When an edge is dropped.** As long as the edges at hand lead where all edges lead, and no copy
of the edge was kept, the others lead along it exactly if it does not cover or a copy is to come. -/
theorem IsAcyclic.leads_others_iff (hacyclic : d.IsAcyclic) (he : e ∈ d.edges)
    (hleads : ∀ x y, d.Leads (kept ++ e :: rest) x y ↔ d.Leads d.edges x y)
    (hapart : ∀ f ∈ kept, d.connects f = true → e.ends ≠ f.ends) :
    d.Leads (kept ++ rest) e.source e.target ↔
      d.connects e = true ∧ (d.Covers e.source e.target → ∃ f ∈ rest, f.ends = e.ends) := by
  constructor
  · intro hwalk
    have hconnects : d.connects e = true := connects_iff.2 hwalk.mem_ids
    refine ⟨hconnects, fun hcovers => ?_⟩
    obtain ⟨f, hf, hends⟩ := hcovers.exists_mem
      (fun x y hxy => (hleads x y).1 ((leads_cons_iff hwalk).2 hxy)) hwalk
    refine ⟨f, (List.mem_append.1 hf).resolve_left fun hkept => ?_, hends⟩
    exact hapart f hkept ((connects_congr hends).trans hconnects) hends.symm
  · rintro ⟨hconnects, hcopy⟩
    rcases covers_or_exists he hconnects with hcovers | ⟨w, hhead, htail⟩
    · obtain ⟨f, hf, hends⟩ := hcopy hcovers
      obtain ⟨hsource, htarget⟩ := Prod.mk.inj hends
      exact .single ⟨f, List.mem_append_right kept hf, (connects_congr hends).trans hconnects,
        hsource, htarget⟩
    · exact hacyclic.leads_without hleads hhead htail

/-- **What the reduction keeps of an acyclic diagram.** As long as the edges kept so far and those
to come lead where all edges lead, and none of the first is a copy of one of the second, exactly the
last copy of each covering edge to come is kept. -/
theorem IsAcyclic.reduce_eq (hacyclic : d.IsAcyclic) (hrest : rest ⊆ d.edges)
    (hleads : ∀ x y, d.Leads (kept ++ rest) x y ↔ d.Leads d.edges x y)
    (hapart : ∀ f ∈ kept, d.connects f = true → ∀ g ∈ rest, g.ends ≠ f.ends) :
    ((WiredEdge.reduce (kept.map d.wire) (rest.map d.wire)).map (·.edge)).filter d.connects =
      kept.filter d.connects ++ d.coveringEdges rest := by
  induction rest generalizing kept with
  | nil => simp [WiredEdge.reduce, wire, coveringEdges, Keyed.lastOfEach, Function.comp_def]
  | cons e rest ih =>
    obtain ⟨he, hrest⟩ := List.cons_subset.1 hrest
    have hlater : ∀ f ∈ kept, d.connects f = true → ∀ g ∈ rest, g.ends ≠ f.ends :=
      fun f hf hconnects g hg => hapart f hf hconnects g (List.mem_cons_of_mem e hg)
    have hdropped := hacyclic.leads_others_iff he hleads
      fun f hf hconnects => hapart f hf hconnects e List.mem_cons_self
    rw [List.map_cons, WiredEdge.reduce_cons, ← List.map_append, coveringEdges_cons]
    split
    · next hredundant =>
      rw [isRedundant_wire_iff] at hredundant
      rw [ih hrest (fun x y => (leads_cons_iff hredundant).symm.trans (hleads x y)) hlater, if_neg]
      exact fun hstays => hstays.2 ((hdropped.1 hredundant).2 hstays.1)
    · next hno =>
      rw [isRedundant_wire_iff, hdropped, not_and, Classical.not_imp] at hno
      have hsingle : kept.map d.wire ++ [d.wire e] = (kept ++ [e]).map d.wire := by
        rw [List.map_append, List.map_singleton]
      have hsame : ∀ x y, d.Leads (kept ++ [e] ++ rest) x y ↔ d.Leads d.edges x y := by
        rw [List.append_assoc]
        exact hleads
      rw [hsingle, ih hrest hsame, List.filter_append, List.append_assoc]
      · congr 1
        by_cases hconnects : d.connects e = true
        · rw [List.filter_cons_of_pos hconnects, if_pos (hno hconnects)]
          rfl
        · rw [List.filter_cons_of_neg hconnects, if_neg fun h => hconnects h.1.connects]
          rfl
      · refine List.forall_mem_append.2 ⟨hlater, List.forall_mem_singleton.2 ?_⟩
        exact fun hconnects g hg hends => (hno hconnects).2 ⟨g, hg, hends⟩

/-! ## Simplified diagrams -/

/-- The connected edges of a simplified acyclic diagram are those that cover. -/
theorem IsAcyclic.connected_simplify (hacyclic : d.IsAcyclic) :
    (d.simplify false).edges.filter d.connects = d.coveringEdges d.edges :=
  hacyclic.reduce_eq (List.Subset.refl _) (fun _ _ => Iff.rfl) (List.forall_mem_nil _)

/-- **Of the edges between covering ends the last one stays.** -/
theorem IsAcyclic.edgesBetween_simplify (hacyclic : d.IsAcyclic) (h : d.Covers u v) :
    ∃ e, (d.simplify false).edgesBetween u v = [e] ∧ (d.edgesBetween u v).getLast? = some e := by
  -- what lies between covering ends connects and covers
  have hconnected : (d.simplify false).edgesBetween u v =
      ((d.simplify false).edges.filter d.connects).filter fun e => e.ends = (u, v) := by
    rw [List.filter_filter, edgesBetween]
    refine List.filter_congr fun e _ => ?_
    rw [Bool.eq_iff_iff, Bool.and_eq_true, decide_eq_true_iff, iff_self_and]
    intro hends
    obtain ⟨rfl, rfl⟩ := Prod.mk.inj hends
    exact h.connects
  have hcovering : (d.edges.filter fun e => d.Covers e.source e.target).filter
      (fun e => e.ends = (u, v)) = d.edgesBetween u v := by
    rw [List.filter_filter, edgesBetween]
    refine List.filter_congr fun e _ => ?_
    rw [Bool.eq_iff_iff, Bool.and_eq_true, decide_eq_true_iff, decide_eq_true_iff,
      and_iff_left_iff_imp]
    intro hends
    obtain ⟨rfl, rfl⟩ := Prod.mk.inj hends
    exact h
  obtain ⟨e, he⟩ : ∃ e, (d.edgesBetween u v).getLast? = some e := by
    obtain ⟨f, hf, -, hsource, htarget⟩ := h.joins
    have hmem : f ∈ d.edgesBetween u v :=
      List.mem_filter.2 ⟨hf, decide_eq_true (Prod.ext hsource htarget)⟩
    exact ⟨_, List.getLast?_eq_some_getLast (List.ne_nil_of_mem hmem)⟩
  refine ⟨e, ?_, he⟩
  rw [hconnected, hacyclic.connected_simplify, coveringEdges, Keyed.filter_lastOfEach, hcovering,
    he]
  rfl

/-- Every connected edge that stays covers. -/
theorem IsAcyclic.covers_of_mem (hacyclic : d.IsAcyclic) (he : e ∈ (d.simplify false).edges)
    (hconnects : d.connects e = true) : d.Covers e.source e.target := by
  have hmem : e ∈ d.coveringEdges d.edges :=
    hacyclic.connected_simplify ▸ List.mem_filter.2 ⟨he, hconnects⟩
  exact of_decide_eq_true (List.mem_filter.1 (List.pwFilter_subset _ hmem)).2

/-! ## Independence of the order of the edges -/

/-- The ends of the edges that stay: those that cover, and those of the dangling edges. -/
theorem IsAcyclic.mem_ends_simplify_iff (hacyclic : d.IsAcyclic) :
    (u, v) ∈ (d.simplify false).edges.map Edge.ends ↔
      d.Covers u v ∨ (u, v) ∈ d.danglingEdges.map Edge.ends := by
  rw [← d.danglingEdges_simplify]
  constructor
  · intro hmem
    obtain ⟨e, he, hends⟩ := List.mem_map.1 hmem
    cases hconnects : d.connects e with
    | true =>
      obtain ⟨rfl, rfl⟩ := Prod.mk.inj hends
      exact Or.inl (hacyclic.covers_of_mem he hconnects)
    | false =>
      have hdangling : (!(d.simplify false).connects e) = true :=
        congrArg (fun b => !b) hconnects
      exact Or.inr (List.mem_map.2 ⟨e, List.mem_filter.2 ⟨he, hdangling⟩, hends⟩)
  · rintro (hcovers | hdangling)
    · obtain ⟨e, hbetween, -⟩ := hacyclic.edgesBetween_simplify hcovers
      have he : e ∈ (d.simplify false).edgesBetween u v := hbetween ▸ List.mem_singleton_self e
      obtain ⟨he, hends⟩ := List.mem_filter.1 he
      exact List.mem_map.2 ⟨e, he, of_decide_eq_true hends⟩
    · exact List.map_subset Edge.ends (List.filter_subset_self _) hdangling

/-- **Which ends stay joined depends on the sets of ids and edges alone.** -/
theorem IsAcyclic.mem_ends_simplify_congr {other : Diagram} (hacyclic : d.IsAcyclic)
    (hids : ∀ id, id ∈ other.ids ↔ id ∈ d.ids) (hedges : ∀ e, e ∈ other.edges ↔ e ∈ d.edges)
    (ends : String × String) :
    ends ∈ (other.simplify false).edges.map Edge.ends ↔
      ends ∈ (d.simplify false).edges.map Edge.ends := by
  obtain ⟨u, v⟩ := ends
  have hconnects : other.connects = d.connects := by
    funext e
    rw [Bool.eq_iff_iff, connects_iff, connects_iff, hids, hids]
  have hjoins : other.Joins other.edges = d.Joins d.edges := by
    funext u v
    simp only [Joins, hconnects, hedges]
  have hleads : other.Leads other.edges = d.Leads d.edges := congrArg Relation.TransGen hjoins
  have hother : other.IsAcyclic := fun id hid => hacyclic id (hleads ▸ hid)
  have hcovers : other.Covers u v ↔ d.Covers u v := by
    constructor
    · exact fun h => ⟨hjoins ▸ h.joins, hleads ▸ h.direct⟩
    · exact fun h => ⟨hjoins ▸ h.joins, hleads ▸ h.direct⟩
  rw [hother.mem_ends_simplify_iff, hacyclic.mem_ends_simplify_iff, hcovers]
  simp only [danglingEdges, List.mem_map, List.mem_filter, hconnects, hedges]

/-- **On an acyclic diagram the simplification is the unique transitive reduction.** Between
covering ends it leaves one edge, the last one of the diagram, and it leaves no other connected
edge; in order, these are the last copies of the covering edges. Hence a diagram with the same ids
and with the same edges in another order simplifies to edges with the same ends. -/
theorem simplify_isUnique (h : d.hasCycle = false) :
    (∀ u v, d.Covers u v → ∃ e, (d.simplify false).edgesBetween u v = [e] ∧
        (d.edgesBetween u v).getLast? = some e) ∧
      (∀ e ∈ (d.simplify false).edges, d.connects e = true → d.Covers e.source e.target) ∧
      (d.simplify false).edges.filter d.connects = d.coveringEdges d.edges ∧
      ∀ other : Diagram, (∀ id, id ∈ other.ids ↔ id ∈ d.ids) → other.edges.Perm d.edges →
        ∀ ends, ends ∈ (other.simplify false).edges.map Edge.ends ↔
          ends ∈ (d.simplify false).edges.map Edge.ends := by
  have hacyclic : d.IsAcyclic := by
    rw [← not_not (a := d.IsAcyclic), ← hasCycle_iff, h]
    exact Bool.false_ne_true
  refine ⟨fun u v hcovers => hacyclic.edgesBetween_simplify hcovers,
    fun e he hconnects => hacyclic.covers_of_mem he hconnects, hacyclic.connected_simplify, ?_⟩
  intro other hids hperm ends
  exact hacyclic.mem_ends_simplify_congr hids (fun e => hperm.mem_iff) ends

/-- Two ways from `a` to `c`, the short one beside two copies of a step of the long one, and an edge
that dangles. -/
def ladder : Diagram := .of
  [{ id := "b", label := "B" }, { id := "c", label := "C" }, { id := "a", label := "A" }]
  [{ source := "a", target := "b", label := some "early" },
    { source := "a", target := "c" }, { source := "b", target := "c" },
    { source := "a", target := "b", label := some "late" }, { source := "b", target := "ghost" }]
  .empty (by decide)

/-- The same edges from the last to the first. -/
def reversedLadder : Diagram := { ladder with edges := ladder.edges.reverse }

theorem simplify_isUnique_ladder :
    ladder.hasCycle = false ∧ ladder.Covers "a" "b" ∧
      (ladder.simplify false).edgesBetween "a" "b" =
        [{ source := "a", target := "b", label := some "late" }] ∧
      ¬ ladder.Covers "a" "c" ∧
      (ladder.simplify false).edges.filter ladder.connects =
        [{ source := "b", target := "c" }, { source := "a", target := "b", label := some "late" }] ∧
      ("a", "b") ∈ (reversedLadder.simplify false).edges.map Edge.ends := by
  have hacyclic : ladder.hasCycle = false := by decide +kernel
  have hab : ladder.Covers "a" "b" := by decide +kernel
  obtain ⟨hbetween, -, hconnected, hother⟩ := simplify_isUnique hacyclic
  obtain ⟨e, hone, hlast⟩ := hbetween "a" "b" hab
  have he : (ladder.edgesBetween "a" "b").getLast? =
      some { source := "a", target := "b", label := some "late" } := by decide
  obtain rfl := Option.some.inj (hlast.symm.trans he)
  refine ⟨hacyclic, hab, hone, by decide +kernel, ?_, ?_⟩
  · rw [hconnected]
    decide +kernel
  · refine (hother reversedLadder (fun _ => Iff.rfl) (List.reverse_perm _) ("a", "b")).2 ?_
    exact List.mem_map.2 ⟨_, List.mem_of_mem_filter (hone ▸ List.mem_singleton_self _), rfl⟩

end Diagram

end Flowchart
