import Flowchart.Change.Compare
import Flowchart.Proofs.Diagram
import Mathlib.Algebra.Order.Group.Multiset
import Mathlib.Algebra.Order.Sub.Basic
import Mathlib.Data.Multiset.OrderedMonoid

/-!
# The changes between two diagrams are an exact patch

Edges are matched by counting copies, so **the edges left over are the difference of two multisets**;
adding one difference to what the other leaves of the old edges gives the new ones, and an edge
cannot be in both. Nodes are matched by their ids, and what is neither removed nor modified is the
same node up to the order of its attributes. So the changes patch the old diagram into the new one,
there are none exactly if the two are the same, and the other way round the changes are reversed.
-/

namespace Flowchart

/-! ## Matching edges -/

namespace Copies

variable {copies : Copies} {e f : Edge}

/-- Setting the number of copies of an edge leaves those of the others. -/
theorem of_put (k : Nat) : Copies.of (Keyed.put Prod.fst (e, k) copies) f =
    if e = f then k else copies.of f := by
  unfold Copies.of
  rw [Keyed.find?_put]
  by_cases h : e = f
  · rw [if_pos h, if_pos h]
  · rw [if_neg h, if_neg h]

/-- Adding a copy of an edge counts one more of it. -/
theorem of_add : (copies.add e).of f = if e = f then copies.of e + 1 else copies.of f := of_put _

/-- Every edge of the list is one more copy. -/
theorem of_foldl_add (edges : List Edge) :
    (edges.foldl Copies.add copies).of e = copies.of e + edges.count e := by
  induction edges generalizing copies with
  | nil => rfl
  | cons f rest ih =>
    rw [List.foldl_cons, ih, of_add]
    by_cases h : f = e
    · subst h
      rw [if_pos rfl, List.count_cons_self]
      omega
    · rw [if_neg h, List.count_cons_of_ne h]

/-- **The table counts the copies.** -/
theorem of_count (edges : List Edge) : (count edges).of e = edges.count e := by
  rw [count, of_foldl_add]
  exact Nat.zero_add _

end Copies

/-- An edge is left over as often as it occurs beyond its copies. -/
theorem count_leftOver (copies : Copies) (edges : List Edge) (e : Edge) :
    (leftOver copies edges).count e = edges.count e - copies.of e := by
  induction edges generalizing copies with
  | nil => rw [leftOver, List.count_nil, Nat.zero_sub]
  | cons f rest ih =>
    rw [leftOver]
    split
    · next hnone =>
      by_cases h : f = e
      · subst h
        rw [List.count_cons_self, List.count_cons_self, ih, hnone]
        omega
      · rw [List.count_cons_of_ne h, List.count_cons_of_ne h, ih]
    · next k hsome =>
      rw [ih, Copies.of_put]
      by_cases h : f = e
      · subst h
        rw [if_pos rfl, List.count_cons_self, hsome]
        omega
      · rw [if_neg h, List.count_cons_of_ne h]

/-- **Copies are matched one by one**: of each edge those are left that outnumber the others. -/
theorem count_unmatched (edges others : List Edge) (e : Edge) :
    (unmatched edges others).count e = edges.count e - others.count e := by
  rw [unmatched, count_leftOver, Copies.of_count]

/-- **The edges left over are the difference of the multisets.** -/
theorem coe_unmatched (edges others : List Edge) :
    (unmatched edges others : Multiset Edge) = (edges : Multiset Edge) - others := by
  ext e
  rw [Multiset.count_sub, Multiset.coe_count, Multiset.coe_count, Multiset.coe_count,
    count_unmatched]

/-- Nothing is left over on both sides exactly if the edges are the same up to order. -/
theorem unmatched_eq_nil_iff {edges others : List Edge} :
    unmatched edges others = [] ∧ unmatched others edges = [] ↔ edges.Perm others := by
  rw [← Multiset.coe_eq_zero, ← Multiset.coe_eq_zero, coe_unmatched, coe_unmatched,
    tsub_eq_zero_iff_le, tsub_eq_zero_iff_le, ← Multiset.coe_eq_coe]
  exact antisymm_iff

/-! ## Matching nodes -/

/-- Equality of dictionaries up to order is symmetric. -/
theorem Dictionary.Same.symm {a b : Dictionary} (h : a.Same b) : b.Same a := by
  obtain ⟨hlength, hsub⟩ := h
  have hsubperm : a.entries.Subperm b.entries := a.nodup.of_map.subperm hsub
  have hperm : a.entries.Perm b.entries := hsubperm.perm_of_length_le hlength.ge
  exact ⟨hlength.symm, fun e he => hperm.mem_iff.2 he⟩

namespace Node

/-- A node is the same as itself. -/
theorem Same.refl (n : Node) : n.Same n := ⟨rfl, rfl, rfl, .refl _⟩

/-- Being the same is symmetric. -/
theorem Same.symm {n m : Node} (h : n.Same m) : m.Same n := by
  obtain ⟨hid, hlabel, htype, hattributes⟩ := h
  exact ⟨hid.symm, hlabel.symm, htype.symm, hattributes.symm⟩

theorem same_comm {n m : Node} : n.Same m ↔ m.Same n := ⟨Same.symm, Same.symm⟩

/-- Two lists of nodes with distinct ids are the same map exactly if each node of one is a node of
the other, up to the order of attributes. -/
theorem forall_rel_find?_iff {ns ms : List Node} (hns : (ns.map Node.id).Nodup)
    (hms : (ms.map Node.id).Nodup) :
    (∀ id, Option.Rel Node.Same (Keyed.find? Node.id id ns) (Keyed.find? Node.id id ms)) ↔
      (∀ n ∈ ns, ∃ m ∈ ms, n.Same m) ∧ ∀ m ∈ ms, ∃ n ∈ ns, n.Same m := by
  constructor
  · intro h
    constructor
    · intro n hn
      have hrel := h n.id
      rw [(Keyed.find?_eq_some_iff Node.id hns).2 ⟨hn, rfl⟩] at hrel
      generalize hfind : Keyed.find? Node.id n.id ms = found at hrel
      cases hrel with
      | some hsame => exact ⟨_, ((Keyed.find?_eq_some_iff Node.id hms).1 hfind).1, hsame⟩
    · intro m hm
      have hrel := h m.id
      rw [(Keyed.find?_eq_some_iff Node.id hms).2 ⟨hm, rfl⟩] at hrel
      generalize hfind : Keyed.find? Node.id m.id ns = found at hrel
      cases hrel with
      | some hsame => exact ⟨_, ((Keyed.find?_eq_some_iff Node.id hns).1 hfind).1, hsame⟩
  · rintro ⟨hforth, hback⟩ id
    by_cases hid : id ∈ ns.map Node.id
    · obtain ⟨n, hn, rfl⟩ := List.mem_map.1 hid
      obtain ⟨m, hm, hsame⟩ := hforth n hn
      rw [(Keyed.find?_eq_some_iff Node.id hns).2 ⟨hn, rfl⟩,
        (Keyed.find?_eq_some_iff Node.id hms).2 ⟨hm, hsame.1.symm⟩]
      exact .some hsame
    · have hnone : id ∉ ms.map Node.id := by
        intro hmem
        obtain ⟨m, hm, rfl⟩ := List.mem_map.1 hmem
        obtain ⟨n, hn, hsame⟩ := hback m hm
        exact hid (hsame.1 ▸ List.mem_map_of_mem hn)
      rw [(Keyed.find?_eq_none_iff Node.id).2 hid, (Keyed.find?_eq_none_iff Node.id).2 hnone]
      exact .none

end Node

/-- Every id finds the same node in both diagrams, attributes compared as maps, or none in either. -/
def Diagram.SameNodes (a b : Diagram) : Prop :=
  ∀ id, Option.Rel Node.Same (a.node? id) (b.node? id)

/-- Two diagrams have the same nodes if each node of one is the same as a node of the other. -/
theorem Diagram.sameNodes_iff {a b : Diagram} :
    a.SameNodes b ↔
      (∀ n ∈ a.nodes, ∃ m ∈ b.nodes, n.Same m) ∧ ∀ m ∈ b.nodes, ∃ n ∈ a.nodes, n.Same m := by
  simp only [SameNodes, node?_eq_find?]
  exact Node.forall_rel_find?_iff a.nodup b.nodup

namespace Changes

open Diagram (node?_eq_some_iff node?_eq_none_iff eq_of_id_eq)

variable {old new : Diagram} {n m : Node}

/-- The added nodes are those whose id is new. -/
theorem mem_addedNodes_iff : n ∈ (between old new).addedNodes ↔ n ∈ new.nodes ∧ n.id ∉ old.ids := by
  show n ∈ new.nodes.filter (fun n => !old.contains n.id) ↔ _
  rw [List.mem_filter, Bool.not_eq_true', ← Bool.not_eq_true, Diagram.contains_iff_mem_ids]

/-- What is added one way is removed the other way. -/
theorem addedNodes_swap (old new : Diagram) :
    (between new old).addedNodes = (between old new).removedNodes := rfl

/-- The removed nodes are those whose id is gone. -/
theorem mem_removedNodes_iff :
    n ∈ (between old new).removedNodes ↔ n ∈ old.nodes ∧ n.id ∉ new.ids := by
  rw [← addedNodes_swap, mem_addedNodes_iff]

/-- **What is modified** are the pairs of nodes of one id that are not the same. -/
theorem mem_modifiedNodes_iff {p : Node × Node} :
    p ∈ (between old new).modifiedNodes ↔
      p.1 ∈ old.nodes ∧ p.2 ∈ new.nodes ∧ p.1.id = p.2.id ∧ ¬ p.1.Same p.2 := by
  unfold between
  dsimp only
  rw [List.mem_filterMap]
  constructor
  · rintro ⟨n, hn, hpair⟩
    split at hpair
    · next previous hprevious =>
      obtain ⟨hmem, hid⟩ := node?_eq_some_iff.1 hprevious
      split at hpair
      · exact absurd hpair (by simp)
      · next hsame =>
        obtain rfl := Option.some.inj hpair
        exact ⟨hmem, hn, hid, hsame⟩
    · exact absurd hpair (by simp)
  · rintro ⟨hold, hnew, hid, hsame⟩
    refine ⟨p.2, hnew, ?_⟩
    rw [node?_eq_some_iff.2 ⟨hold, hid⟩]
    exact if_neg hsame

/-- No pair of nodes is listed twice as modified. -/
theorem nodup_modifiedNodes (old new : Diagram) : (between old new).modifiedNodes.Nodup := by
  unfold between
  dsimp only
  refine List.Nodup.filterMap (fun n m p hn hm => ?_) new.nodup.of_map
  -- a pair tells its new node
  split at hn
  · split at hn
    · exact absurd hn (by simp)
    · split at hm
      · split at hm
        · exact absurd hm (by simp)
        · exact congrArg Prod.snd ((Option.some.inj hn).trans (Option.some.inj hm).symm)
      · exact absurd hm (by simp)
  · exact absurd hn (by simp)

/-! ## The patch -/

/-- The new version of a node, if it was modified. -/
def replaced (c : Changes) (n : Node) : Node :=
  match c.modifiedNodes.find? fun p => p.1.id = n.id with
  | some p => p.2
  | none => n

/-- The nodes whose ids are not removed. -/
def staying (c : Changes) (nodes : List Node) : List Node :=
  nodes.filter fun n => n.id ∉ c.removedNodes.map Node.id

/-- The nodes after the changes: the removed ids are dropped, modified nodes are replaced, and the
added nodes follow. -/
def patched (c : Changes) (nodes : List Node) : List Node :=
  (c.staying nodes).map c.replaced ++ c.addedNodes

/-- **A node that stays becomes the new one** of its id, up to the order of its attributes. -/
theorem same_replaced (hn : n ∈ old.nodes) (hm : m ∈ new.nodes) (hid : n.id = m.id) :
    ((between old new).replaced n).Same m := by
  unfold replaced
  split
  · next p hp =>
    obtain ⟨hfirst, hsecond, hpair, -⟩ := mem_modifiedNodes_iff.1 (List.mem_of_find?_eq_some hp)
    have hkey : p.1.id = n.id := by simpa using List.find?_some hp
    obtain rfl : p.2 = m := eq_of_id_eq hsecond hm (by rw [← hpair, hkey, hid])
    exact .refl _
  · next hnone =>
    by_contra hsame
    have hmodified : (n, m) ∈ (between old new).modifiedNodes :=
      mem_modifiedNodes_iff.2 ⟨hn, hm, hid, hsame⟩
    exact List.find?_eq_none.1 hnone _ hmodified (by simp)

/-- What stays are the nodes whose ids the new diagram has too. -/
theorem mem_staying_iff :
    n ∈ (between old new).staying old.nodes ↔ n ∈ old.nodes ∧ n.id ∈ new.ids := by
  rw [staying, List.mem_filter, decide_eq_true_eq, and_congr_right_iff]
  intro hn
  constructor
  · intro hkept
    by_contra hid
    exact hkept (List.mem_map_of_mem (mem_removedNodes_iff.2 ⟨hn, hid⟩))
  · intro hid hremoved
    obtain ⟨r, hr, hrn⟩ := List.mem_map.1 hremoved
    exact (mem_removedNodes_iff.1 hr).2 (hrn ▸ hid)

/-- A node that stays has a counterpart. -/
theorem exists_same_replaced (h : n ∈ (between old new).staying old.nodes) :
    ∃ m ∈ new.nodes, ((between old new).replaced n).Same m ∧ n.id = m.id := by
  obtain ⟨hn, hid⟩ := mem_staying_iff.1 h
  obtain ⟨m, hm, hmn⟩ := List.mem_map.1 hid
  exact ⟨m, hm, same_replaced hn hm hmn.symm, hmn.symm⟩

/-- Patching leaves no id twice. -/
theorem nodup_map_id_patched (old new : Diagram) :
    (((between old new).patched old.nodes).map Node.id).Nodup := by
  have hstaying :
      (((between old new).staying old.nodes).map (between old new).replaced).map Node.id =
        ((between old new).staying old.nodes).map Node.id := by
    rw [List.map_map]
    apply List.map_congr_left
    intro n hn
    obtain ⟨m, -, hsame, hid⟩ := exists_same_replaced hn
    rw [Function.comp_apply, hsame.1, hid]
  rw [patched, List.map_append, hstaying, List.nodup_append]
  refine ⟨?_, ?_, ?_⟩
  · exact old.nodup.sublist (List.filter_sublist.map Node.id)
  · exact new.nodup.sublist (List.filter_sublist.map Node.id)
  · rintro id hstays _ hadded rfl
    obtain ⟨n, hn, rfl⟩ := List.mem_map.1 hstays
    obtain ⟨a, ha, hid⟩ := List.mem_map.1 hadded
    exact (mem_addedNodes_iff.1 ha).2 (hid ▸ List.mem_map_of_mem (mem_staying_iff.1 hn).1)

/-- **Patching the old nodes gives the new ones**, id by id. -/
theorem rel_find?_patched (old new : Diagram) (id : String) :
    Option.Rel Node.Same (Keyed.find? Node.id id ((between old new).patched old.nodes))
      (new.node? id) := by
  rw [Diagram.node?_eq_find?]
  refine (Node.forall_rel_find?_iff (nodup_map_id_patched old new) new.nodup).2 ⟨?_, ?_⟩ id
  · intro n hn
    rcases List.mem_append.1 hn with hn | hn
    · obtain ⟨p, hp, rfl⟩ := List.mem_map.1 hn
      obtain ⟨m, hm, hsame, -⟩ := exists_same_replaced hp
      exact ⟨m, hm, hsame⟩
    · exact ⟨n, (mem_addedNodes_iff.1 hn).1, .refl n⟩
  · intro m hm
    by_cases hid : m.id ∈ old.ids
    · obtain ⟨n, hn, hnm⟩ := List.mem_map.1 hid
      have hstays : n ∈ (between old new).staying old.nodes :=
        mem_staying_iff.2 ⟨hn, hnm ▸ List.mem_map_of_mem hm⟩
      exact ⟨_, List.mem_append_left _ (List.mem_map_of_mem hstays), same_replaced hn hm hnm⟩
    · exact ⟨m, List.mem_append_right _ (mem_addedNodes_iff.2 ⟨hm, hid⟩), .refl m⟩

/-- What makes changes a patch of an old diagram into a new one. -/
structure Patches (c : Changes) (old new : Diagram) : Prop where
  removedEdges_le : (c.removedEdges : Multiset Edge) ≤ old.edges
  edges_eq : (new.edges : Multiset Edge) = old.edges - c.removedEdges + c.addedEdges
  disjoint_edges : ∀ e ∈ c.addedEdges, e ∉ c.removedEdges
  nodup_ids : ((c.patched old.nodes).map Node.id).Nodup
  nodes_same : ∀ id,
    Option.Rel Node.Same (Keyed.find? Node.id id (c.patched old.nodes)) (new.node? id)

/-- **The changes between two diagrams patch the old one**, in nodes and in edges. -/
theorem patches_between (old new : Diagram) : (between old new).Patches old new where
  removedEdges_le := by
    show (unmatched old.edges new.edges : Multiset Edge) ≤ old.edges
    rw [coe_unmatched]
    exact tsub_le_self
  edges_eq := by
    show _ = (old.edges : Multiset Edge) - unmatched old.edges new.edges +
      unmatched new.edges old.edges
    ext e
    rw [Multiset.count_add, Multiset.count_sub, Multiset.coe_count, Multiset.coe_count,
      Multiset.coe_count, Multiset.coe_count, count_unmatched, count_unmatched]
    omega
  disjoint_edges := by
    intro e hadded hremoved
    have hmore : 0 < (unmatched new.edges old.edges).count e := List.count_pos_iff.2 hadded
    have hless : 0 < (unmatched old.edges new.edges).count e := List.count_pos_iff.2 hremoved
    rw [count_unmatched] at hmore hless
    omega
  nodup_ids := nodup_map_id_patched old new
  nodes_same := rel_find?_patched old new

/-! ## No changes -/

/-- There are no changes exactly if all five lists are empty. -/
theorem any_eq_false_iff {c : Changes} :
    c.any = false ↔ c.addedNodes = [] ∧ c.removedNodes = [] ∧ c.modifiedNodes = [] ∧
      c.addedEdges = [] ∧ c.removedEdges = [] := by
  rw [any, decide_eq_false_iff_not, total]
  simp only [← List.length_eq_zero_iff]
  omega

/-- Without changed nodes the nodes are the same, and only then. -/
theorem nodes_eq_nil_iff :
    ((between old new).addedNodes = [] ∧ (between old new).removedNodes = [] ∧
      (between old new).modifiedNodes = []) ↔ old.SameNodes new := by
  simp only [List.eq_nil_iff_forall_not_mem, mem_addedNodes_iff, mem_removedNodes_iff,
    mem_modifiedNodes_iff, Diagram.sameNodes_iff]
  constructor
  · rintro ⟨hadded, hremoved, hmodified⟩
    have hpair : ∀ n ∈ old.nodes, ∀ m ∈ new.nodes, n.id = m.id → n.Same m := by
      intro n hn m hm hid
      by_contra hsame
      exact hmodified (n, m) ⟨hn, hm, hid, hsame⟩
    constructor
    · intro n hn
      have hid : n.id ∈ new.ids := not_not.1 fun hid => hremoved n ⟨hn, hid⟩
      obtain ⟨m, hm, hmn⟩ := List.mem_map.1 hid
      exact ⟨m, hm, hpair n hn m hm hmn.symm⟩
    · intro m hm
      have hid : m.id ∈ old.ids := not_not.1 fun hid => hadded m ⟨hm, hid⟩
      obtain ⟨n, hn, hnm⟩ := List.mem_map.1 hid
      exact ⟨n, hn, hpair n hn m hm hnm⟩
  · rintro ⟨hforth, hback⟩
    refine ⟨?_, ?_, ?_⟩
    · rintro m ⟨hm, hid⟩
      obtain ⟨n, hn, hsame⟩ := hback m hm
      exact hid (hsame.1 ▸ List.mem_map_of_mem hn)
    · rintro n ⟨hn, hid⟩
      obtain ⟨m, hm, hsame⟩ := hforth n hn
      exact hid (hsame.1 ▸ List.mem_map_of_mem hm)
    · rintro p ⟨hold, hnew, hid, hdiffers⟩
      obtain ⟨m, hm, hsame⟩ := hforth p.1 hold
      obtain rfl : m = p.2 := eq_of_id_eq hm hnew (hsame.1.symm.trans hid)
      exact hdiffers hsame

/-! ## The other way round -/

/-- Added and removed swap places, and modified pairs are turned around, up to order. -/
structure Reverses (c c' : Changes) : Prop where
  addedNodes : c'.addedNodes.Perm c.removedNodes
  removedNodes : c'.removedNodes.Perm c.addedNodes
  modifiedNodes : c'.modifiedNodes.Perm (c.modifiedNodes.map Prod.swap)
  addedEdges : c'.addedEdges.Perm c.removedEdges
  removedEdges : c'.removedEdges.Perm c.addedEdges

/-- **The changes the other way round undo these.** -/
theorem reverses_between (old new : Diagram) : (between old new).Reverses (between new old) where
  addedNodes := .refl _
  removedNodes := .refl _
  modifiedNodes := by
    rw [List.perm_ext_iff_of_nodup (nodup_modifiedNodes new old)
      ((nodup_modifiedNodes old new).map Prod.swap_injective)]
    rintro ⟨m, n⟩
    have hswap : (n, m).swap ∈ (between old new).modifiedNodes.map Prod.swap ↔
        (n, m) ∈ (between old new).modifiedNodes := List.mem_map_of_injective Prod.swap_injective
    rw [Prod.swap_prod_mk] at hswap
    rw [hswap, mem_modifiedNodes_iff, mem_modifiedNodes_iff, Node.same_comm]
    constructor
    · rintro ⟨hm, hn, hid, hsame⟩
      exact ⟨hn, hm, hid.symm, hsame⟩
    · rintro ⟨hn, hm, hid, hsame⟩
      exact ⟨hm, hn, hid.symm, hsame⟩
  addedEdges := .refl _
  removedEdges := .refl _

/-- **A comparison is an exact patch.** Its removed edges are edges of the old diagram; without them
and with the added ones, which are none of them, the old edges are the new ones with multiplicity;
the patched nodes are the new ones id by id. It is empty exactly if the nodes are the same and the
edges are so up to order. The comparison the other way round is the reverse. -/
theorem between_isExactPatch (old new : Diagram) :
    (between old new).Patches old new ∧
      ((between old new).any = false ↔ old.SameNodes new ∧ old.edges.Perm new.edges) ∧
      (between old new).Reverses (between new old) := by
  refine ⟨patches_between old new, ?_, reverses_between old new⟩
  rw [any_eq_false_iff, ← nodes_eq_nil_iff, ← unmatched_eq_nil_iff]
  constructor
  · rintro ⟨hadded, hremoved, hmodified, hmore, hless⟩
    exact ⟨⟨hadded, hremoved, hmodified⟩, hless, hmore⟩
  · rintro ⟨⟨hadded, hremoved, hmodified⟩, hless, hmore⟩
    exact ⟨hadded, hremoved, hmodified, hmore, hless⟩

end Changes

end Flowchart
