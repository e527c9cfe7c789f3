import Flowchart.Proofs.NameSearch
import Mathlib.Data.Set.Finite.Basic

/-!
# Output ids do not collide

Which words are reserved is up to the notation, as long as there are finitely many. Going through the
ids of a diagram and searching for names ends, and only where the counter of a search overflows are
there no names: then there are as many ids and reserved words as 32 bits can count. In all other cases
the names are those of `ofDiagram`. So **the ids of every diagram get different output ids**, and these
stay if the renamed diagram is renamed again, where no search is needed at all.
-/

namespace Flowchart

open Text (isWordChar)

namespace Renaming

variable {isReserved : String → Bool}

/-! ## Any finite set of reserved words -/

/-- Finitely many reserved words can be listed. -/
theorem exists_contains_eq (h : {word | isReserved word = true}.Finite) :
    ∃ r : ReservedWords, r.contains = isReserved := by
  refine ⟨{ words := h.toFinset.toList }, ?_⟩
  funext word
  rw [Bool.eq_iff_iff, ReservedWords.contains, List.any_eq_true]
  simp

end Renaming

/-! ## The renamed diagram -/

namespace Diagram

/-- The diagram under its output ids; also ends of edges that are no node are renamed. -/
def renamed (reserved : ReservedWords) (d : Diagram) : Diagram :=
  have nodup : ((d.nodes.map (Renaming.ofDiagram reserved d).node).map Node.id).Nodup := by
    rw [Renaming.map_id_map fun _ => rfl]
    exact Renaming.nodup_map_apply reserved
  .of (d.nodes.map (Renaming.ofDiagram reserved d).node)
    (d.edges.map (Renaming.ofDiagram reserved d).edge) d.metadata nodup

theorem nodes_renamed (reserved : ReservedWords) (d : Diagram) :
    (d.renamed reserved).nodes = d.nodes.map (Renaming.ofDiagram reserved d).node :=
  nodes_of _ _ _ (by rw [Renaming.map_id_map fun _ => rfl]; exact Renaming.nodup_map_apply reserved)

/-- The id is that of a node or of an end of an edge. -/
def Mentions (d : Diagram) (id : String) : Prop :=
  id ∈ d.ids ∨ ∃ e ∈ d.edges, id = e.source ∨ id = e.target

end Diagram

namespace Renaming

/-- The ids of a renamed diagram are output ids. -/
theorem exists_apply_of_mentions_renamed {reserved : ReservedWords} {d : Diagram} {id : String}
    (h : (d.renamed reserved).Mentions id) :
    ∃ old ∈ idsOf d, (ofDiagram reserved d).apply old = id := by
  rcases h with hnode | ⟨e, he, hend⟩
  · rw [Diagram.ids, Diagram.nodes_renamed] at hnode
    obtain ⟨n, hn, rfl⟩ := List.mem_map.1 hnode
    obtain ⟨old, hold, rfl⟩ := List.mem_map.1 hn
    exact ⟨old.id, id_mem_idsOf hold, rfl⟩
  · obtain ⟨old, hold, rfl⟩ := List.mem_map.1 he
    rcases hend with rfl | rfl
    · exact ⟨old.source, source_mem_idsOf hold, rfl⟩
    · exact ⟨old.target, target_mem_idsOf hold, rfl⟩

/-- **Renaming twice is renaming once.** -/
theorem apply_renamed (reserved : ReservedWords) (d : Diagram) (id : String) :
    (ofDiagram reserved (d.renamed reserved)).apply id = id := by
  refine apply_eq_self_of_allows reserved fun hid => ?_
  obtain ⟨old, hold, rfl⟩ := exists_apply_of_mentions_renamed (mem_idsOf.1 hid)
  exact allows_apply reserved hold

/-- The ids of the diagram get these names, or none if a search overflows. Plain ids are taken from
the start. -/
def Names (isReserved : String → Bool) (d : Diagram) (result : Option (List (String × String))) :
    Prop :=
  Assigns isReserved ((idsOf d).filter (isPlain isReserved)) (idsOf d) result

/-- The output ids of a diagram do not collide: different ids have different ones; each is a word that
is not reserved; and ids that are such words stay. -/
structure IsCollisionFree (isReserved : String → Bool) (d : Diagram) (ids : Renaming) : Prop where
  injOn : Set.InjOn ids.apply {id | d.Mentions id}
  ne_empty : ∀ id, d.Mentions id → ids.apply id ≠ ""
  isWordChar : ∀ id, d.Mentions id → ∀ c ∈ (ids.apply id).toList, isWordChar c = true
  not_reserved : ∀ id, d.Mentions id → isReserved (ids.apply id) = false
  stays : ∀ id, isPlain isReserved id = true → ids.apply id = id

/-- The output ids of a diagram do not collide with each other. -/
theorem isCollisionFree_ofDiagram (r : ReservedWords) (d : Diagram) :
    IsCollisionFree r.contains d (ofDiagram r d) where
  injOn _ ha _ hb heq := apply_injOn r (mem_idsOf.2 ha) (mem_idsOf.2 hb) heq
  ne_empty _ hid := apply_ne_empty r (mem_idsOf.2 hid)
  isWordChar _ hid := (isWord_apply r (mem_idsOf.2 hid)).isWordChar
  not_reserved _ hid := contains_apply r (mem_idsOf.2 hid)
  stays _ hplain := apply_eq_self_of_allows r fun _ => hplain

/-- An overflow takes more ids and reserved words than 32 bits can count with a sign. -/
theorem Names.le_of_overflow (h : {word | isReserved word = true}.Finite) {d : Diagram}
    (hnames : Names isReserved d none) :
    2 ^ 31 ≤ {word | isReserved word = true}.ncard + (idsOf d).length := by
  have hlimit := hnames.candidateLimit_lt h
  have hlength := (idsOf d).length_eq_length_filter_add (isPlain isReserved)
  unfold candidateLimit at hlimit
  omega

/-- The ids of a renamed diagram stay without a search. -/
theorem names_renamed (r : ReservedWords) (d : Diagram) :
    Names r.contains (d.renamed r) (some ((idsOf (d.renamed r)).map fun id => (id, id))) := by
  refine assigns_of_plain fun id hid => ?_
  obtain ⟨old, hold, rfl⟩ := exists_apply_of_mentions_renamed (mem_idsOf.1 hid)
  exact allows_apply r hold

/-- Three ids with one word, a keyword, and an end that is no node. -/
def colliding : Diagram := .of
  [{ id := "a-b", label := "" }, { id := "a_b", label := "" },
    { id := "a b", label := "" }, { id := "end", label := "" }]
  [{ source := "a b", target := "missing.node" }]
  .empty (by decide)

end Renaming

end Flowchart
