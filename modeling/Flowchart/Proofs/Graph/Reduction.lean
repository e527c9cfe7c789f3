import Flowchart.Graph.Reduction
import Flowchart.Proofs.Graph.Leads

/-!
# What transitive reduction keeps and what it leaves

The reduction runs through the edges and drops each one that is redundant beside those kept so far
and those to come. Two invariants carry it:

* dropping a redundant edge changes nothing about where the edges lead, because every step along it
  can be replaced by a walk along the others;
* an edge that was kept is not redundant, and stays so while others are dropped, because fewer edges
  lead to fewer places (`Settled`).

So the result leads where the diagram leads, **none of its edges can be removed**, and reducing it
again changes nothing.
-/

namespace Flowchart

namespace WiredEdge

variable {n : Nat} {e : WiredEdge n} {edges others kept rest : List (WiredEdge n)} {u v : Fin n}

/-! ## Redundant edges -/

/-- One of these edges has this arc. -/
def Links (edges : List (WiredEdge n)) (u v : Fin n) : Prop := ∃ e ∈ edges, e.arc? = some (u, v)

/-- One or more of these edges, one after the other, lead from `u` to `v`. -/
def Leads (edges : List (WiredEdge n)) : Fin n → Fin n → Prop := Relation.TransGen (Links edges)

theorem Leads.mono (h : edges ⊆ others) (hleads : Leads edges u v) : Leads others u v := by
  have hlinks : ∀ a b, Links edges a b → Links others a b := by
    rintro a b ⟨e, he, harc⟩
    exact ⟨e, h he, harc⟩
  exact Relation.TransGen.mono hlinks u v hleads

/-- An edge is redundant exactly if the others lead along it. -/
theorem isRedundant_iff :
    e.isRedundant others = true ↔ ∃ u v, e.arc? = some (u, v) ∧ Leads others u v := by
  have hlinks : (fun a b => (a, b) ∈ others.filterMap (·.arc?)) = Links others := by
    funext a b
    exact propext List.mem_filterMap
  unfold isRedundant
  split
  · next hnone =>
    rw [hnone]
    simp
  · next a b hsome =>
    rw [List.contains_iff_mem, Arcs.mem_reachable_iff, hlinks, hsome]
    constructor
    · exact fun h => ⟨a, b, rfl, h⟩
    · rintro ⟨a', b', harc, h⟩
      obtain ⟨rfl, rfl⟩ : a = a' ∧ b = b' := by simpa using harc
      exact h

/-- An edge that is not redundant is not redundant beside fewer edges. -/
theorem isRedundant_eq_false_of_subset (h : edges ⊆ others) (hno : e.isRedundant others = false) :
    e.isRedundant edges = false := by
  rw [← Bool.not_eq_true] at hno ⊢
  intro hyes
  obtain ⟨a, b, harc, hleads⟩ := isRedundant_iff.1 hyes
  exact hno (isRedundant_iff.2 ⟨a, b, harc, hleads.mono h⟩)

/-- **Without a redundant edge the others lead where they led with it.** -/
theorem leads_iff_of_isRedundant (h : e.isRedundant (kept ++ rest) = true) :
    Leads (kept ++ e :: rest) u v ↔ Leads (kept ++ rest) u v := by
  constructor
  · intro hleads
    refine Relation.TransGen.lift' id ?_ u v hleads
    rintro a b ⟨f, hf, harc⟩
    by_cases hfe : f = e
    · subst hfe
      obtain ⟨a', b', harc', hdetour⟩ := isRedundant_iff.1 h
      obtain ⟨rfl, rfl⟩ : a' = a ∧ b' = b := by simpa [harc'] using harc
      exact hdetour
    · have hmem : f ∈ kept ++ rest := by
        rw [List.mem_append, List.mem_cons] at hf
        rw [List.mem_append]
        exact hf.imp_right fun hf => hf.resolve_left hfe
      exact .single ⟨f, hmem, harc⟩
  · refine Leads.mono fun f hf => ?_
    rw [List.mem_append] at hf
    rw [List.mem_append, List.mem_cons]
    exact hf.imp_right Or.inr

/-! ## Edges that must stay -/

/-- No edge of `kept` is redundant beside the others of `kept` and those of `rest`. -/
def Settled (kept rest : List (WiredEdge n)) : Prop :=
  ∀ before e after, kept = before ++ e :: after → e.isRedundant (before ++ after ++ rest) = false

/-- What is kept stays settled when an edge to come is dropped. -/
theorem Settled.drop (h : Settled kept (e :: rest)) : Settled kept rest := by
  intro before f after hsplit
  refine isRedundant_eq_false_of_subset ?_ (h before f after hsplit)
  intro g hg
  rw [List.mem_append] at hg ⊢
  exact hg.imp_right (List.mem_cons_of_mem e)

/-- What is kept stays settled when an edge that is not redundant joins it. -/
theorem Settled.keep (h : Settled kept (e :: rest)) (hno : e.isRedundant (kept ++ rest) = false) :
    Settled (kept ++ [e]) rest := by
  intro before f after hsplit
  rcases List.eq_nil_or_concat after with rfl | ⟨middle, last, rfl⟩
  -- the edge that joins
  · obtain ⟨rfl, rfl⟩ : kept = before ∧ e = f := by simpa using hsplit
    rw [List.append_nil]
    exact hno
  -- an edge that was kept before: the same edges are beside it
  · rw [List.concat_eq_append, ← List.cons_append, ← List.append_assoc] at hsplit
    obtain ⟨rfl, hlast⟩ := List.append_inj' hsplit rfl
    obtain rfl : e = last := by simpa using hlast
    have hkept := h before f middle rfl
    rw [List.concat_eq_append]
    simpa only [List.append_assoc, List.singleton_append] using hkept

/-! ## The whole reduction -/

theorem reduce_cons (kept : List (WiredEdge n)) (e : WiredEdge n) (rest : List (WiredEdge n)) :
    reduce kept (e :: rest) =
      if e.isRedundant (kept ++ rest) then reduce kept rest else reduce (kept ++ [e]) rest := rfl

theorem reduce_sublist (kept rest : List (WiredEdge n)) :
    (reduce kept rest).Sublist (kept ++ rest) := by
  induction rest generalizing kept with
  | nil =>
    rw [List.append_nil]
    exact List.Sublist.refl kept
  | cons e rest ih =>
    rw [reduce_cons]
    split
    · exact (ih kept).trans ((List.sublist_cons_self e rest).append_left kept)
    · simpa using ih (kept ++ [e])

/-- Edges without an arc are all kept. -/
theorem filter_isNone_reduce (kept rest : List (WiredEdge n)) :
    (reduce kept rest).filter (·.arc?.isNone) = (kept ++ rest).filter (·.arc?.isNone) := by
  induction rest generalizing kept with
  | nil => rw [List.append_nil, reduce]
  | cons e rest ih =>
    rw [reduce_cons]
    split
    · next hredundant =>
      obtain ⟨a, b, harc, -⟩ := isRedundant_iff.1 hredundant
      rw [ih, List.filter_append, List.filter_append, List.filter_cons_of_neg (by simp [harc])]
    · rw [ih, List.append_assoc, List.singleton_append]

/-- **The result leads where the edges led.** -/
theorem leads_reduce (kept rest : List (WiredEdge n)) :
    Leads (reduce kept rest) u v ↔ Leads (kept ++ rest) u v := by
  induction rest generalizing kept with
  | nil => rw [List.append_nil, reduce]
  | cons e rest ih =>
    rw [reduce_cons]
    split
    · next hredundant => rw [ih, leads_iff_of_isRedundant hredundant]
    · rw [ih, List.append_assoc, List.singleton_append]

/-- **No edge of the result is redundant beside the others.** -/
theorem settled_reduce (h : Settled kept rest) : Settled (reduce kept rest) [] := by
  induction rest generalizing kept with
  | nil => exact h
  | cons e rest ih =>
    rw [reduce_cons]
    split
    · exact ih h.drop
    · next hno => exact ih (h.keep (by simpa using hno))

/-- Where no edge is redundant, none is dropped. -/
theorem reduce_eq_append (h : Settled (kept ++ rest) []) : reduce kept rest = kept ++ rest := by
  induction rest generalizing kept with
  | nil => rw [List.append_nil, reduce]
  | cons e rest ih =>
    have hno : e.isRedundant (kept ++ rest) = false := by simpa using h kept e rest rfl
    rw [reduce_cons, if_neg (by simp [hno]), ih (by simpa using h), List.append_assoc,
      List.singleton_append]

end WiredEdge

namespace Diagram

open Sheet
open WiredEdge (reduce)

variable {d : Diagram}

/-! ## Simplified diagrams -/

/-- The arcs of wired edges are those of their edges. -/
theorem leads_wiring_iff {edges : List Edge} {u v : Fin d.nodes.length} :
    WiredEdge.Leads (edges.map fun e => ⟨e, d.arc? e⟩) u v ↔
      d.Leads edges (d.idAt u) (d.idAt v) := by
  have hlinks : WiredEdge.Links (edges.map fun e => ⟨e, d.arc? e⟩) =
      fun a b => (a, b) ∈ edges.filterMap d.arc? := by
    funext a b
    simp [WiredEdge.Links, List.mem_filterMap]
  rw [WiredEdge.Leads, hlinks]
  exact transGen_arcs_iff

/-- Some edges of the diagram are wired as they are. -/
theorem map_edge_wired {kept : List (WiredEdge d.nodes.length)} (h : kept ⊆ d.wiring) :
    ((kept.map (·.edge)).map fun e => (⟨e, d.arc? e⟩ : WiredEdge d.nodes.length)) = kept := by
  rw [List.map_map]
  refine (List.map_congr_left fun w hw => ?_).trans (List.map_id kept)
  obtain ⟨e, -, rfl⟩ := List.mem_map.1 (h hw)
  rfl

/-- Some edges of the diagram in place of all. -/
theorem simplify_eq (d : Diagram) :
    d.simplify false = { d with edges := (reduce [] d.wiring).map (·.edge) } := rfl

/-- Arcs do not depend on the other edges. -/
theorem arc?_with_edges (d : Diagram) (edges : List Edge) (e : Edge) :
    ({ d with edges } : Diagram).arc? e = d.arc? e := by
  apply Option.ext
  rintro ⟨u, v⟩
  exact arc?_eq_some_iff.trans (arc?_eq_some_iff (d := d)).symm

theorem wiring_with_edges (d : Diagram) (edges : List Edge) :
    ({ d with edges } : Diagram).wiring = edges.map fun e => ⟨e, d.arc? e⟩ := by
  apply List.map_congr_left
  intro e _
  rw [arc?_with_edges]

/-- The wiring of a simplified diagram is what the reduction kept. -/
theorem wiring_reduced (d : Diagram) :
    ({ d with edges := (reduce [] d.wiring).map (·.edge) } : Diagram).wiring =
      reduce [] d.wiring := by
  have hwired := wiring_with_edges d ((reduce [] d.wiring).map (·.edge))
  exact hwired.trans (map_edge_wired (WiredEdge.reduce_sublist [] d.wiring).subset)

theorem map_edge_wiring (d : Diagram) : d.wiring.map (·.edge) = d.edges := by
  rw [wiring, List.map_map]
  exact List.map_id d.edges

/-- Dangling edges are those without an arc. -/
theorem filter_not_connects {kept : List (WiredEdge d.nodes.length)} (h : kept ⊆ d.wiring) :
    (kept.map (·.edge)).filter (fun e => !d.connects e) =
      (kept.filter (·.arc?.isNone)).map (·.edge) := by
  rw [List.filter_map]
  refine congrArg (List.map _) (List.filter_congr fun w hw => ?_)
  obtain ⟨e, -, rfl⟩ := List.mem_map.1 (h hw)
  rw [Function.comp_apply, Bool.eq_iff_iff, Option.isNone_iff_eq_none, arc?_eq_none_iff,
    Bool.not_eq_true']

/-- Edges lead where others lead, if they do so between positions. -/
theorem leads_congr {edges edges' : List Edge}
    (h : ∀ a b, d.Leads edges (d.idAt a) (d.idAt b) → d.Leads edges' (d.idAt a) (d.idAt b))
    {u v : String} (hleads : d.Leads edges u v) : d.Leads edges' u v := by
  obtain ⟨hu, hv⟩ := hleads.mem_ids
  obtain ⟨a, ha⟩ := exists_position? hu
  obtain ⟨b, hb⟩ := exists_position? hv
  rw [position?_eq_some_iff] at ha hb
  rw [← ha, ← hb] at hleads ⊢
  exact h a b hleads

/-- The edges that the reduction keeps lead where those of the diagram lead. -/
theorem leads_reduced {u v : String} :
    d.Leads ((reduce [] d.wiring).map (·.edge)) u v ↔ d.Leads d.edges u v := by
  have hat : ∀ a b, d.Leads ((reduce [] d.wiring).map (·.edge)) (d.idAt a) (d.idAt b) ↔
      d.Leads d.edges (d.idAt a) (d.idAt b) := by
    intro a b
    rw [← leads_wiring_iff, ← leads_wiring_iff,
      map_edge_wired (WiredEdge.reduce_sublist [] d.wiring).subset, WiredEdge.leads_reduce,
      List.nil_append]
    exact Iff.rfl
  exact ⟨leads_congr fun a b => (hat a b).1, leads_congr fun a b => (hat a b).2⟩

/-- At the start nothing is kept, so nothing is redundant. -/
theorem settled_wiring (d : Diagram) : WiredEdge.Settled (reduce [] d.wiring) [] :=
  WiredEdge.settled_reduce fun before e after h => by simp at h

/-- The reduction drops no dangling edge. -/
theorem danglingEdges_simplify (d : Diagram) : (d.simplify false).danglingEdges = d.danglingEdges :=
  calc (d.simplify false).danglingEdges
      = ((reduce [] d.wiring).map (·.edge)).filter (fun e => !d.connects e) := rfl
    _ = ((reduce [] d.wiring).filter (·.arc?.isNone)).map (·.edge) :=
        filter_not_connects (WiredEdge.reduce_sublist [] d.wiring).subset
    _ = (d.wiring.filter (·.arc?.isNone)).map (·.edge) := by
        rw [WiredEdge.filter_isNone_reduce, List.nil_append]
    _ = d.danglingEdges := by
        rw [← filter_not_connects (List.Subset.refl d.wiring), map_edge_wiring, danglingEdges]

/-- Reducing what the reduction kept keeps all of it. -/
theorem simplify_simplify (d : Diagram) : (d.simplify false).simplify false = d.simplify false := by
  have hsettled : WiredEdge.Settled ([] ++ reduce [] d.wiring) [] := settled_wiring d
  have hagain : reduce [] (d.simplify false).wiring = reduce [] d.wiring :=
    (congrArg (reduce []) d.wiring_reduced).trans (WiredEdge.reduce_eq_append hsettled)
  refine ext_nodes rfl ?_ rfl
  exact congrArg (List.map (·.edge)) hagain

/-- No connected edge that the reduction keeps joins what the others lead to. -/
theorem not_leads_others {before after : List Edge} {e : Edge}
    (hsplit : (reduce [] d.wiring).map (·.edge) = before ++ e :: after)
    (hconnects : d.connects e = true) : ¬ d.Leads (before ++ after) e.source e.target := by
  have hsettled := settled_wiring d
  rw [← map_edge_wired (WiredEdge.reduce_sublist [] d.wiring).subset, hsplit, List.map_append,
    List.map_cons] at hsettled
  have hno := hsettled _ _ _ rfl
  rw [List.append_nil, ← List.map_append, ← Bool.not_eq_true, WiredEdge.isRedundant_iff] at hno
  intro hleads
  obtain ⟨hsource, htarget⟩ := connects_iff.1 hconnects
  obtain ⟨a, ha⟩ := exists_position? hsource
  obtain ⟨b, hb⟩ := exists_position? htarget
  rw [position?_eq_some_iff] at ha hb
  rw [← ha, ← hb] at hleads
  exact hno ⟨a, b, arc?_eq_some_iff.2 ⟨ha, hb⟩, leads_wiring_iff.2 hleads⟩

/-- **Transitive reduction.** Simplifying keeps nodes and metadata, drops only connected edges and
keeps the order of the others, changes nothing about what can be reached from where, leaves no
connected edge whose ends the other edges still join, and has nothing left to do on its result. -/
theorem simplify_isReduction (d : Diagram) :
    (d.simplify false).nodes = d.nodes ∧
      (d.simplify false).metadata = d.metadata ∧
      (d.simplify false).edges.Sublist d.edges ∧
      (d.simplify false).danglingEdges = d.danglingEdges ∧
      (∀ u v, (d.simplify false).isReachable u v = d.isReachable u v) ∧
      (∀ before e after, (d.simplify false).edges = before ++ e :: after →
        (d.simplify false).connects e = true →
          ¬ (d.simplify false).Leads (before ++ after) e.source e.target) ∧
      (d.simplify false).simplify false = d.simplify false := by
  rw [simplify_eq d]
  refine ⟨rfl, rfl, ?_, ?_, ?_, ?_, ?_⟩
  · have hsublist := (WiredEdge.reduce_sublist [] d.wiring).map (·.edge)
    rw [List.nil_append, map_edge_wiring] at hsublist
    exact hsublist
  · exact d.danglingEdges_simplify
  · intro u v
    rw [Bool.eq_iff_iff, isReachable_iff, isReachable_iff]
    exact leads_reduced
  · intro before e after hsplit hconnects
    exact not_leads_others (d := d) hsplit hconnects
  · exact d.simplify_simplify

end Diagram

end Flowchart
