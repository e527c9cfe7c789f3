import Flowchart.Change.Merge
import Flowchart.Graph.Reduction
import Flowchart.Proofs.Conversion.Recovery
import Flowchart.Proofs.Graph.Extraction

/-!
# Sheets stay indexed by the ids of their nodes

Every algorithm counts nodes by their places and looks them up by their keys. Both ways lead to the
same node as long as every node stands under its own id, ids are distinct and none is empty. A sheet
does not see to that by itself: it is what each operation does to the slots that keeps it. **An
operation leaves some of the slots, in their order, or it appends one, under the id of its node, which
is new and not empty**; and merging puts nodes under their ids into no slots at all.

Operations work in place. Those that can be refused check before they write, so one that is refused
has not changed anything yet.
-/

namespace Flowchart

open Sheet (retained retained_sublist)

/-! ## Operations -/

/-- What can be done to a sheet. What is retained may depend on what was asked about before. -/
inductive Operation where
  | addNode (n : Node)
  | addEdge (e : Edge)
  | setMetadata (key value : String)
  | retainNodes {σ : Type} (keep : σ → Node → Bool × σ) (memory : σ)
  | retainEdges {σ : Type} (keep : σ → Edge → Bool × σ) (memory : σ)
  | simplify (removeIsolated : Bool)
  | extract (root : String) (limit? : Option Nat)

namespace Operation

/-- The operation as a program on the sheet at hand. -/
def program : Operation → Edit Unit
  | addNode n => .addNode n
  | addEdge e => modify (·.addEdge e)
  | setMetadata key value => modify (·.setMetadata key value)
  | retainNodes keep memory => modify (·.retainNodesWith keep memory)
  | retainEdges keep memory => modify (·.retainEdgesWith keep memory)
  | simplify removeIsolated => modify (·.simplify removeIsolated)
  | extract root limit? => do
    let part ← (← get).extract root limit?
    set part

/-- What the operation answers and which sheet it leaves. -/
def run (operation : Operation) (s : Sheet) : Except DiagramError Unit × Sheet :=
  operation.program.runOn s

/-- When an operation is refused, and why. -/
inductive Refused (s : Sheet) : Operation → DiagramError → Prop
  | emptyId {n : Node} : n.id = "" → Refused s (addNode n) .emptyId
  | duplicateNode {n : Node} :
    n.id ≠ "" → n.id ∈ s.keys → Refused s (addNode n) (.duplicateNode n.id)
  | unknownNode {root : String} {limit? : Option Nat} :
    root ∉ s.keys → Refused s (extract root limit?) (.unknownNode root)

variable {operation : Operation} {s s' : Sheet} {e : DiagramError}

/-! ### What the programs do -/

/-- **Adding a node**: the id is checked first, for being empty and then for being taken. -/
theorem run_addNode (n : Node) (s : Sheet) : (addNode n).run s =
    if n.id = "" then (.error .emptyId, s)
    else if n.id ∈ s.keys then (.error (.duplicateNode n.id), s)
    else (.ok (), s.insert n) := by
  have hcontains : s.contains n.id = true ↔ n.id ∈ s.keys := Keyed.contains_iff Prod.fst
  simp only [← hcontains]
  exact Edit.runOn_addNode n s

/-- **Extracting**: the root is looked up first, and only then the part replaces the sheet. -/
theorem run_extract (root : String) (limit? : Option Nat) (s : Sheet) :
    (extract root limit?).run s =
      match s.extract root limit? with
      | .ok part => (.ok (), part)
      | .error e => (.error e, s) := by
  show (do set (← s.extract root limit?) : Edit Unit).runOn s = _
  cases s.extract root limit? <;> rfl

/-- Extraction is refused exactly for a root that is no key. -/
theorem extract_eq_error_iff {root : String} {limit? : Option Nat} :
    s.extract root limit? = .error e ↔ root ∉ s.keys ∧ e = .unknownNode root := by
  have hplace : s.position? root = none ↔ root ∉ s.keys := by
    simp only [Sheet.position?, Sheet.keys, Option.map_eq_none_iff, List.findFinIdx?_eq_none_iff,
      List.mem_map, decide_eq_true_eq, not_exists, not_and]
  rw [← hplace, Sheet.extract]
  cases s.position? root <;> simp [eq_comm]

/-- **An operation fails exactly if it is refused, and then it leaves the sheet as it was.** -/
theorem run_eq_error_iff :
    operation.run s = (.error e, s') ↔ Refused s operation e ∧ s' = s := by
  cases operation with
  | addNode n =>
    rw [run_addNode]
    constructor
    · intro h
      split at h
      · next hempty =>
        obtain ⟨rfl, rfl⟩ : DiagramError.emptyId = e ∧ s = s' := by simpa using h
        exact ⟨.emptyId hempty, rfl⟩
      split at h
      · next hempty htaken =>
        obtain ⟨rfl, rfl⟩ : DiagramError.duplicateNode n.id = e ∧ s = s' := by simpa using h
        exact ⟨.duplicateNode hempty htaken, rfl⟩
      · exact absurd h (by simp)
    · rintro ⟨hrefused, rfl⟩
      cases hrefused with
      | emptyId hempty => rw [if_pos hempty]
      | duplicateNode hempty htaken => rw [if_neg hempty, if_pos htaken]
  | extract root limit? =>
    rw [run_extract]
    constructor
    · intro h
      split at h
      · exact absurd h (by simp)
      · next found hfound =>
        obtain ⟨rfl, rfl⟩ : found = e ∧ s = s' := by simpa using h
        obtain ⟨hroot, rfl⟩ := extract_eq_error_iff.1 hfound
        exact ⟨.unknownNode hroot, rfl⟩
    · rintro ⟨hrefused, rfl⟩
      cases hrefused with
      | unknownNode hroot => rw [extract_eq_error_iff.2 ⟨hroot, rfl⟩]
  | addEdge _ | setMetadata _ _ | retainNodes _ _ | retainEdges _ _ | simplify _ =>
    constructor
    · intro h
      exact absurd (congrArg Prod.fst h) (by rintro ⟨⟩)
    · rintro ⟨⟨⟩, -⟩

/-- **What an operation does to the slots**, be it refused or not: it leaves some of them, in their
order, or it appends a node under its id, which is not empty and no key yet. -/
theorem slots_cases (operation : Operation) (s : Sheet) :
    (operation.run s).2.slots.Sublist s.slots ∨
      ∃ n, n.id ≠ "" ∧ n.id ∉ s.keys ∧ (operation.run s).2.slots = s.slots ++ [(n.id, n)] := by
  cases operation with
  | addNode n =>
    rw [run_addNode]
    split
    · exact Or.inl (.refl _)
    split
    · exact Or.inl (.refl _)
    · next hempty hnew => exact Or.inr ⟨n, hempty, hnew, Sheet.slots_insert hnew⟩
  | extract root limit? =>
    rw [run_extract]
    split
    · next hpart => exact Or.inl (Sheet.slots_extract_sublist hpart)
    · exact Or.inl (.refl _)
  | addEdge _ | setMetadata _ _ | retainEdges _ _ => exact Or.inl (.refl _)
  | retainNodes keep memory => exact Or.inl (retained_sublist _ memory s.slots)
  | simplify removeIsolated => exact Or.inl (s.slots_simplify_sublist removeIsolated)

end Operation

namespace Sheet

variable {s : Sheet}

/-! ## Sheets that are indexed -/

/-- Every node stands under its own id, which is not empty and no other node's; a key finds the node
whose id it is, and the place at which it finds it is that of the node among the nodes. -/
structure IsIndexed (s : Sheet) : Prop where
  key_eq_id : ∀ slot ∈ s.slots, slot.1 = slot.2.id
  id_ne_empty : ∀ n ∈ s.nodes, n.id ≠ ""
  nodup_ids : (s.nodes.map Node.id).Nodup
  node?_eq_some_iff : ∀ key n, s.node? key = some n ↔ n ∈ s.nodes ∧ n.id = key
  position?_eq_some_iff : ∀ key v, s.position? key = some v ↔ (s.nodes.get v).id = key
  node?_eq : ∀ key, s.node? key = (s.position? key).map s.nodes.get
  contains_eq : ∀ key, s.contains key = (s.position? key).isSome

/-- Nothing of this holds by itself: a node under another one's id is found where it does not
belong. -/
example : ¬ IsIndexed ⟨[("a", { id := "b", label := "" })], [], .empty⟩ :=
  fun h => absurd (h.key_eq_id _ List.mem_cons_self) (by decide)

end Sheet

namespace Diagram

/-- Looking up by id and by place agree. -/
theorem node?_eq_map_position? (d : Diagram) (id : String) :
    d.node? id = (d.position? id).map d.nodes.get := by
  cases hv : d.position? id with
  | none => exact node?_eq_none_iff.2 (position?_eq_none_iff.1 hv)
  | some v => exact node?_eq_some_iff.2 ⟨List.get_mem d.nodes v, position?_eq_some_iff.1 hv⟩

/-- An id is contained exactly if it has a place. -/
theorem contains_eq_isSome_position? (d : Diagram) (id : String) :
    d.contains id = (d.position? id).isSome := by
  rw [Bool.eq_iff_iff, contains_iff_mem_ids, Option.isSome_iff_ne_none, Ne, position?_eq_none_iff,
    not_not]

/-- **A diagram is indexed** as soon as none of its ids is empty. -/
theorem isIndexed_of_id_ne_empty {d : Diagram} (h : ∀ n ∈ d.nodes, n.id ≠ "") :
    d.toSheet.IsIndexed where
  key_eq_id := d.keyed.key_eq_id
  id_ne_empty := h
  nodup_ids := d.nodup
  node?_eq_some_iff := fun _ _ => node?_eq_some_iff
  position?_eq_some_iff := fun _ _ => position?_eq_some_iff
  node?_eq := d.node?_eq_map_position?
  contains_eq := d.contains_eq_isSome_position?

end Diagram

namespace Sheet

variable {s : Sheet}

/-- **Distinct keys that are the ids of their nodes index them**, so only the empty id is to be kept
out. -/
theorem isIndexed_of_isKeyed (hkeyed : IsKeyed s.slots) (h : ∀ n ∈ s.nodes, n.id ≠ "") :
    s.IsIndexed :=
  Diagram.isIndexed_of_id_ne_empty (d := ⟨s, hkeyed⟩) h

/-- On an indexed sheet keys are distinct, because they are the ids. -/
theorem IsIndexed.isKeyed (h : s.IsIndexed) : IsKeyed s.slots := by
  refine ⟨?_, h.key_eq_id⟩
  have hkeys : s.slots.map Prod.fst = s.nodes.map Node.id := by
    rw [Sheet.nodes, List.map_map]
    exact List.map_congr_left h.key_eq_id
  rw [hkeys]
  exact h.nodup_ids

/-! ## Whole runs -/

/-- The sheets that there can be: the empty one, that of a parsed diagram, what an operation leaves of
one, also when it is refused, and what three of them are merged into. -/
inductive Obtained : Sheet → Prop
  | empty : Obtained .empty
  | parsed {options : Flow.Options} {format : SourceFormat} {source : String} {d : Diagram} :
    format.parse options source = .ok d → Obtained d.toSheet
  | performed (operation : Operation) {s : Sheet} : Obtained s → Obtained (operation.run s).2
  | merged (strategy : MergeStrategy) {base ours theirs : Sheet} :
    Obtained base → Obtained ours → Obtained theirs → Obtained (base.merge ours theirs strategy)

/-- **An operation keeps the nodes indexed**, be it refused or not. -/
theorem IsIndexed.run (h : s.IsIndexed) (operation : Operation) : (operation.run s).2.IsIndexed := by
  rcases operation.slots_cases s with hsublist | ⟨n, hempty, hnew, hslots⟩
  · apply isIndexed_of_isKeyed (h.isKeyed.sublist hsublist)
    exact fun n hn => h.id_ne_empty n ((hsublist.map Prod.snd).subset hn)
  · apply isIndexed_of_isKeyed
    · rw [hslots]
      exact h.isKeyed.append hnew
    · intro m hm
      rw [Sheet.nodes, hslots, List.map_append, List.mem_append, List.map_singleton,
        List.mem_singleton] at hm
      rcases hm with hold | rfl
      · exact h.id_ne_empty m hold
      · exact hempty

/-- A merged node is a node of one of the three sheets. -/
theorem mem_nodes_merge {base ours theirs : Sheet} {strategy : MergeStrategy} {n : Node}
    (h : n ∈ (base.merge ours theirs strategy).nodes) :
    n ∈ base.nodes ∨ n ∈ ours.nodes ∨ n ∈ theirs.nodes := by
  have hput : ∀ nodes metadata, n ∈ (ofNodes nodes metadata).nodes → n ∈ nodes := by
    intro nodes metadata hn
    rw [nodes_ofNodes] at hn
    exact (Keyed.mem_putAll Node.id hn).resolve_left List.not_mem_nil
  cases strategy with
  | ours => exact Or.inr (Or.inl h)
  | theirs => exact Or.inr (Or.inr h)
  | union =>
    have hmem := hput _ ours.metadata h
    rwa [List.mem_append, List.mem_append, or_assoc] at hmem
  | intersection => exact Or.inr (Or.inl (List.mem_of_mem_filter (hput _ base.metadata h)))

/-- **Merging indexes the nodes again.** -/
theorem IsIndexed.merge {base ours theirs : Sheet} (hbase : base.IsIndexed)
    (hours : ours.IsIndexed) (htheirs : theirs.IsIndexed) (strategy : MergeStrategy) :
    (base.merge ours theirs strategy).IsIndexed := by
  apply isIndexed_of_isKeyed (isKeyed_merge base hours.isKeyed htheirs.isKeyed strategy)
  intro n hn
  rcases mem_nodes_merge hn with hmem | hmem | hmem
  · exact hbase.id_ne_empty n hmem
  · exact hours.id_ne_empty n hmem
  · exact htheirs.id_ne_empty n hmem

/-- **Every sheet that there can be is indexed.** -/
theorem Obtained.isIndexed (h : s.Obtained) : s.IsIndexed := by
  induction h with
  | empty => exact isIndexed_of_isKeyed .nil (List.forall_mem_nil _)
  | parsed hparse => exact Diagram.isIndexed_of_id_ne_empty (SourceFormat.parse_accepted hparse).2
  | performed operation _ ih => exact ih.run operation
  | merged strategy _ _ _ hbase hours htheirs => exact hbase.merge hours htheirs strategy

/-- **The identity of nodes is kept over whole runs.** However a sheet was obtained, its nodes stand
under their own ids and are indexed by them; and an operation on it fails exactly if it is refused, a
node without an id of its own or a root that is no node, and then leaves it as it was. -/
theorem Obtained.keeps_identity (h : s.Obtained) :
    s.IsIndexed ∧ ∀ operation e s',
      operation.run s = (.error e, s') ↔ Operation.Refused s operation e ∧ s' = s :=
  ⟨h.isIndexed, fun _ _ _ => Operation.run_eq_error_iff⟩

/-- A node added to nothing, merged with another one. -/
def mergedPair : Sheet :=
  let left := ((Operation.addNode { id := "a", label := "A" }).run .empty).2
  let right := ((Operation.addNode { id := "b", label := "B" }).run .empty).2
  left.merge left right .union

theorem obtained_mergedPair : mergedPair.Obtained :=
  .merged .union (.performed _ .empty) (.performed _ .empty) (.performed _ .empty)

theorem Obtained.keeps_identity_mergedPair :
    mergedPair.keys = ["a", "b"] ∧ mergedPair.IsIndexed ∧
      (Operation.addNode { id := "b", label := "C" }).run mergedPair =
        (.error (.duplicateNode "b"), mergedPair) ∧
      (Operation.extract "c" none).run mergedPair = (.error (.unknownNode "c"), mergedPair) := by
  obtain ⟨hindexed, hfails⟩ := Obtained.keeps_identity obtained_mergedPair
  refine ⟨by decide, hindexed, (hfails _ _ _).2 ⟨?_, rfl⟩, (hfails _ _ _).2 ⟨?_, rfl⟩⟩
  · exact .duplicateNode (by decide) (by decide)
  · exact .unknownNode (by decide)

end Sheet

end Flowchart
