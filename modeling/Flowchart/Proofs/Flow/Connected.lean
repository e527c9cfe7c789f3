import Flowchart.Proofs.Flow.Drawing

/-!
# Flows lose no step

A piece is connected if each of its steps is led to from an entry and leads to an exit. What follows
a front is connected if each of its steps is led to from a step of the front, and every end of the
front leads on to an exit: **no end is lost where branches start, go on or merge**. Each way to make
a piece keeps this. So in the diagram of a flow that starts with a plain step every node is reachable
from the first one, and the last one is reachable from every node if the flow ends with a plain step
and its branches have been merged.
-/

namespace Flowchart.Flow

variable {number k : Nat} {piece first second : Piece} {front : Front} {exits : List Nat}

/-! ## Fronts -/

/-- The chain goes on from somewhere: there are exits, and steps at which open branches start. -/
structure Front.IsLive (front : Front) : Prop where
  exits : front.exits ≠ []
  points : ∀ fork ∈ front.fork, fork.points ≠ []

/-- All steps that a front names. -/
def Front.named (front : Front) : List Nat :=
  front.exits ++ front.fork.elim [] fun fork => fork.points ++ fork.finished

namespace Front

/-- A live front has something to go on from. -/
theorem IsLive.sources_ne_nil (h : front.IsLive) (label : Option BranchLabel) :
    front.sources label ≠ [] := by
  unfold sources branched
  split
  · split
    · next fork hfork => exact h.points fork hfork
    · exact h.exits
  · exact h.exits

/-- What a front goes on from is a named step of it. -/
theorem mem_named_of_mem_sources {label : Option BranchLabel} (h : k ∈ front.sources label) :
    k ∈ front.named := by
  obtain ⟨ends, _ | fork⟩ := front <;> cases label <;>
    simp [sources, branched, named] at h ⊢ <;> tauto

/-- Behind an item its exits are ends. -/
theorem mem_allExits_advance (label : Option BranchLabel) (h : k ∈ exits) :
    k ∈ (front.advance label exits).allExits :=
  List.mem_append_right _ h

/-- **Every end leads into the item behind it or stays an end.** -/
theorem mem_sources_or_mem_allExits_advance (label : Option BranchLabel) (h : k ∈ front.allExits) :
    k ∈ front.sources label ∨ k ∈ (front.advance label exits).allExits := by
  obtain ⟨ends, _ | fork⟩ := front <;> cases label <;>
    simp [sources, branched, advance, allExits] at h ⊢ <;> tauto

/-- The exits of an advanced front are those of the item, or old ones. -/
theorem mem_of_mem_allExits_advance {label : Option BranchLabel}
    (h : k ∈ (front.advance label exits).allExits) : k ∈ exits ∨ k ∈ front.allExits := by
  obtain ⟨ends, _ | fork⟩ := front <;> cases label <;>
    simp [branched, advance, allExits] at h ⊢ <;> tauto

/-- Its named steps are exits of the item, or old ones. -/
theorem mem_of_mem_named_advance {label : Option BranchLabel}
    (h : k ∈ (front.advance label exits).named) : k ∈ exits ∨ k ∈ front.named := by
  obtain ⟨ends, _ | fork⟩ := front <;> cases label <;>
    simp [branched, advance, named] at h ⊢ <;> tauto

/-- A front stays live behind an item that has an exit. -/
theorem IsLive.advance (h : front.IsLive) (label : Option BranchLabel) (hexits : exits ≠ []) :
    (front.advance label exits).IsLive := by
  refine ⟨hexits, fun fork hfork => ?_⟩
  cases label with
  | none => exact h.points fork hfork
  | some label =>
    obtain rfl : front.branched = fork := Option.some.inj hfork
    exact h.sources_ne_nil (some label)

/-- Merging branches keeps their exits. -/
theorem allExits_merged : front.merged.allExits = front.allExits := by
  obtain ⟨ends, _ | fork⟩ := front <;> rfl

/-- A live front stays live when its branches merge. -/
theorem IsLive.merged (h : front.IsLive) : front.merged.IsLive := by
  obtain ⟨ends, _ | fork⟩ := front
  · exact h
  · exact ⟨List.append_ne_nil_of_right_ne_nil _ h.exits, by simp [Front.merged]⟩

/-- Merging names no new step. -/
theorem mem_named_of_mem_named_merged (h : k ∈ front.merged.named) : k ∈ front.named := by
  obtain ⟨ends, _ | fork⟩ := front <;> simp [merged, named] at h ⊢ <;> tauto

end Front

/-! ## Connected pieces -/

/-- The piece has entries and exits, which are steps of its own, and every step lies on a way from an
entry to an exit. -/
structure Piece.Connected (number : Nat) (piece : Piece) : Prop where
  entries_ne_nil : piece.entries ≠ []
  exits_ne_nil : piece.exits ≠ []
  owns_entries : ∀ k ∈ piece.entries, piece.Owns number k
  owns_exits : ∀ k ∈ piece.exits, piece.Owns number k
  entered : ∀ k, piece.Owns number k → ∃ entry ∈ piece.entries, LeadsTo piece.edges entry k
  left : ∀ k, piece.Owns number k → ∃ exit ∈ piece.exits, LeadsTo piece.edges k exit

/-- The same behind a front: steps are entered from the front, and its ends are left too. -/
structure Piece.ConnectedBehind (number : Nat) (front : Front) (piece : Piece) : Prop where
  exits_ne_nil : piece.exits ≠ []
  owns_exits : ∀ k ∈ piece.exits, k ∈ front.allExits ∨ piece.Owns number k
  entered : ∀ k, piece.Owns number k → ∃ source ∈ front.named, LeadsTo piece.edges source k
  left : ∀ k, k ∈ front.allExits ∨ piece.Owns number k →
    ∃ exit ∈ piece.exits, LeadsTo piece.edges k exit

namespace Piece

/-- A single step is connected. -/
theorem connected_step (number : Nat) (label : String) :
    (Piece.step number label).Connected number where
  entries_ne_nil := List.cons_ne_nil _ _
  exits_ne_nil := List.cons_ne_nil _ _
  owns_entries k hk := by
    rw [List.mem_singleton.1 hk]
    exact ⟨Nat.le_refl _, Nat.lt_succ_self _⟩
  owns_exits k hk := by
    rw [List.mem_singleton.1 hk]
    exact ⟨Nat.le_refl _, Nat.lt_succ_self _⟩
  entered k hk := by
    obtain rfl : k = number := Nat.le_antisymm (Nat.le_of_lt_succ hk.2) hk.1
    exact ⟨k, List.mem_singleton_self k, .refl⟩
  left k hk := by
    obtain rfl : k = number := Nat.le_antisymm (Nat.le_of_lt_succ hk.2) hk.1
    exact ⟨k, List.mem_singleton_self k, .refl⟩

/-- **Connected pieces beside each other** are connected as one. -/
theorem Connected.beside (hfirst : first.Connected number)
    (hsecond : second.Connected (number + first.steps.length)) :
    (first.beside second).Connected number := by
  have howns : ∀ k, (first.beside second).Owns number k ↔
      first.Owns number k ∨ second.Owns (number + first.steps.length) k := fun _ => owns_iff rfl
  have hleft : first.edges ⊆ (first.beside second).edges := List.subset_append_left _ _
  have hright : second.edges ⊆ (first.beside second).edges := List.subset_append_right _ _
  refine ⟨List.append_ne_nil_of_left_ne_nil hfirst.entries_ne_nil _,
    List.append_ne_nil_of_left_ne_nil hfirst.exits_ne_nil _, ?_, ?_, ?_, ?_⟩
  · intro k hk
    exact (howns k).2 ((List.mem_append.1 hk).imp (hfirst.owns_entries k) (hsecond.owns_entries k))
  · intro k hk
    exact (howns k).2 ((List.mem_append.1 hk).imp (hfirst.owns_exits k) (hsecond.owns_exits k))
  · intro k hk
    obtain hk | hk := (howns k).1 hk
    · obtain ⟨entry, hentry, hleads⟩ := hfirst.entered k hk
      exact ⟨entry, List.mem_append_left _ hentry, hleads.mono hleft⟩
    · obtain ⟨entry, hentry, hleads⟩ := hsecond.entered k hk
      exact ⟨entry, List.mem_append_right _ hentry, hleads.mono hright⟩
  · intro k hk
    obtain hk | hk := (howns k).1 hk
    · obtain ⟨exit, hexit, hleads⟩ := hfirst.left k hk
      exact ⟨exit, List.mem_append_left _ hexit, hleads.mono hleft⟩
    · obtain ⟨exit, hexit, hleads⟩ := hsecond.left k hk
      exact ⟨exit, List.mem_append_right _ hexit, hleads.mono hright⟩

/-- Repeating a piece keeps it connected. -/
theorem Connected.repeated (h : piece.Connected number) (label : Option String) :
    (piece.repeated label).Connected number := by
  have hsub : piece.edges ⊆ (piece.repeated label).edges := List.subset_append_left _ _
  refine ⟨h.entries_ne_nil, h.exits_ne_nil, h.owns_entries, h.owns_exits, ?_, ?_⟩
  · intro k hk
    obtain ⟨entry, hentry, hleads⟩ := h.entered k hk
    exact ⟨entry, hentry, hleads.mono hsub⟩
  · intro k hk
    obtain ⟨exit, hexit, hleads⟩ := h.left k hk
    exact ⟨exit, hexit, hleads.mono hsub⟩

/-- A piece is connected with what continues it. -/
theorem Connected.continued (hfirst : first.Connected number)
    (hrest : second.ConnectedBehind (number + first.steps.length) ⟨first.exits, none⟩) :
    (first.continued second).Connected number := by
  have howns : ∀ k, (first.continued second).Owns number k ↔
      first.Owns number k ∨ second.Owns (number + first.steps.length) k := fun _ => owns_iff rfl
  have hleft : first.edges ⊆ (first.continued second).edges := List.subset_append_left _ _
  have hright : second.edges ⊆ (first.continued second).edges := List.subset_append_right _ _
  refine ⟨hfirst.entries_ne_nil, hrest.exits_ne_nil, ?_, ?_, ?_, ?_⟩
  · intro k hk
    exact (howns k).2 (Or.inl (hfirst.owns_entries k hk))
  · intro k hk
    exact (howns k).2 ((hrest.owns_exits k hk).imp_left (hfirst.owns_exits k))
  · intro k hk
    obtain hk | hk := (howns k).1 hk
    · obtain ⟨entry, hentry, hleads⟩ := hfirst.entered k hk
      exact ⟨entry, hentry, hleads.mono hleft⟩
    -- a later step is entered from an exit of the first piece
    · obtain ⟨source, hsource, hleads⟩ := hrest.entered k hk
      have hsource : source ∈ first.exits := by simpa [Front.named] using hsource
      obtain ⟨entry, hentry, hbefore⟩ := hfirst.entered source (hfirst.owns_exits source hsource)
      exact ⟨entry, hentry, (hbefore.mono hleft).trans (hleads.mono hright)⟩
  · intro k hk
    obtain hk | hk := (howns k).1 hk
    · obtain ⟨source, hsource, hleads⟩ := hfirst.left k hk
      obtain ⟨exit, hexit, hbehind⟩ := hrest.left source (Or.inl hsource)
      exact ⟨exit, hexit, (hleads.mono hleft).trans (hbehind.mono hright)⟩
    · obtain ⟨exit, hexit, hleads⟩ := hrest.left k (Or.inr hk)
      exact ⟨exit, hexit, hleads.mono hright⟩

/-- Behind a live front there may be nothing more. -/
theorem connectedBehind_nil (number : Nat) (hfront : front.IsLive) :
    ({ exits := front.allExits } : Piece).ConnectedBehind number front where
  exits_ne_nil := List.append_ne_nil_of_right_ne_nil _ hfront.exits
  owns_exits _ hk := Or.inl hk
  entered k hk := by
    obtain ⟨hle, hlt⟩ := hk
    exact absurd hlt (Nat.not_lt.2 hle)
  left k hk := by
    obtain hk | ⟨hle, hlt⟩ := hk
    · exact ⟨k, hk, .refl⟩
    · exact absurd hlt (Nat.not_lt.2 hle)

/-- A front leads into the item behind it. -/
theorem leadsTo_follow {source entry : Nat} (label : Option BranchLabel)
    (hsource : source ∈ front.sources label) (hentry : entry ∈ first.entries) :
    LeadsTo (Piece.follow front label first second).edges source entry := by
  rw [edges_follow]
  exact .single ((joined_joinAll _ _ hsource hentry).mono
    fun e he => List.mem_append_left _ (List.mem_append_left _ he))

/-- The steps of an item are entered from the front before it. -/
theorem Connected.entered_follow (hitem : first.Connected number) (hfront : front.IsLive)
    (label : Option BranchLabel) (hk : first.Owns number k) :
    ∃ source ∈ front.named, LeadsTo (Piece.follow front label first second).edges source k := by
  obtain ⟨source, hsource⟩ := List.exists_mem_of_ne_nil _ (hfront.sources_ne_nil label)
  obtain ⟨entry, hentry, hleads⟩ := hitem.entered k hk
  obtain ⟨hinside, -⟩ := edges_subset_follow front label first second
  exact ⟨source, Front.mem_named_of_mem_sources hsource,
    (leadsTo_follow label hsource hentry).trans (hleads.mono hinside)⟩

/-- The steps of an item are left through what follows it. -/
theorem Connected.left_follow {label : Option BranchLabel} (hitem : first.Connected number)
    (hrest : second.ConnectedBehind (number + first.steps.length) (front.advance label first.exits))
    (hk : first.Owns number k) :
    ∃ exit ∈ second.exits, LeadsTo (Piece.follow front label first second).edges k exit := by
  obtain ⟨between, hbetween, hleads⟩ := hitem.left k hk
  have hend : between ∈ (front.advance label first.exits).allExits :=
    Front.mem_allExits_advance label hbetween
  obtain ⟨exit, hexit, hlater⟩ := hrest.left between (Or.inl hend)
  obtain ⟨hinside, hbehind⟩ := edges_subset_follow front label first second
  exact ⟨exit, hexit, (hleads.mono hinside).trans (hlater.mono hbehind)⟩

/-- **Behind a front an item joins the chain**: it is entered from the front, and every end of the
front leads into it or stays an end. -/
theorem ConnectedBehind.follow (hfront : front.IsLive) (label : Option BranchLabel)
    (hitem : first.Connected number)
    (hrest : second.ConnectedBehind (number + first.steps.length) (front.advance label first.exits)) :
    (Piece.follow front label first second).ConnectedBehind number front := by
  have howns : ∀ k, (Piece.follow front label first second).Owns number k ↔
      first.Owns number k ∨ second.Owns (number + first.steps.length) k := fun _ => owns_iff rfl
  obtain ⟨-, hbehind⟩ := edges_subset_follow front label first second
  refine ⟨hrest.exits_ne_nil, ?_, ?_, ?_⟩
  · intro k hk
    obtain hend | hk := hrest.owns_exits k hk
    · obtain hexit | hend := Front.mem_of_mem_allExits_advance hend
      · exact Or.inr ((howns k).2 (Or.inl (hitem.owns_exits k hexit)))
      · exact Or.inl hend
    · exact Or.inr ((howns k).2 (Or.inr hk))
  · intro k hk
    obtain hk | hk := (howns k).1 hk
    · exact hitem.entered_follow hfront label hk
    -- a later step is entered from an exit of the item or from a step before it
    · obtain ⟨between, hbetween, hleads⟩ := hrest.entered k hk
      obtain hexit | hnamed := Front.mem_of_mem_named_advance hbetween
      · obtain ⟨source, hsource, hbefore⟩ :=
          hitem.entered_follow hfront label (hitem.owns_exits between hexit)
        exact ⟨source, hsource, hbefore.trans (hleads.mono hbehind)⟩
      · exact ⟨between, hnamed, hleads.mono hbehind⟩
  · have hlater : ∀ k, k ∈ (front.advance label first.exits).allExits ∨
        second.Owns (number + first.steps.length) k → ∃ exit ∈ second.exits,
          LeadsTo (Piece.follow front label first second).edges k exit := by
      intro k hk
      obtain ⟨exit, hexit, hleads⟩ := hrest.left k hk
      exact ⟨exit, hexit, hleads.mono hbehind⟩
    rintro k (hend | hk)
    · obtain hsource | hend := Front.mem_sources_or_mem_allExits_advance label hend
      · obtain ⟨entry, hentry⟩ := List.exists_mem_of_ne_nil _ hitem.entries_ne_nil
        obtain ⟨exit, hexit, hleads⟩ := hitem.left_follow hrest (hitem.owns_entries entry hentry)
        exact ⟨exit, hexit, (leadsTo_follow label hsource hentry).trans hleads⟩
      · exact hlater k (Or.inl hend)
    · obtain hk | hk := (howns k).1 hk
      · exact hitem.left_follow hrest hk
      · exact hlater k (Or.inr hk)

/-- What is connected behind a merged front is connected behind the front itself. -/
theorem ConnectedBehind.of_merged (h : piece.ConnectedBehind number front.merged) :
    piece.ConnectedBehind number front := by
  have hends : ∀ k, k ∈ front.merged.allExits ↔ k ∈ front.allExits := by
    intro k
    rw [Front.allExits_merged]
  refine ⟨h.exits_ne_nil, fun k hk => (h.owns_exits k hk).imp_left (hends k).1, fun k hk => ?_,
    fun k hk => h.left k (hk.imp_left (hends k).2)⟩
  obtain ⟨source, hsource, hleads⟩ := h.entered k hk
  exact ⟨source, Front.mem_named_of_mem_named_merged hsource, hleads⟩

/-- **Every piece is connected.** -/
theorem isKept_connected :
    IsKept (fun number _ piece => piece.Connected number)
      (fun number _ piece => piece.Connected number)
      (fun number front _ piece => front.IsLive → piece.ConnectedBehind number front)
      (fun number _ piece => piece.Connected number) where
  step := connected_step
  parallel _ _ _ h := h
  loop _ label _ _ _ h := h.repeated label
  start _ _ _ _ _ _ hfirst hrest := hfirst.continued (hrest ⟨hfirst.exits_ne_nil, by simp⟩)
  nil number _ hfront := connectedBehind_nil number hfront
  next _ _ label _ _ _ _ _ hfirst hrest hfront :=
    .follow hfront label hfirst (hrest (hfront.advance label hfirst.exits_ne_nil))
  merge _ _ _ _ _ _ h hfront := (h hfront.merged).of_merged
  last _ _ _ h := h
  cons _ _ _ _ _ hfirst hrest := hfirst.beside hrest

end Piece

/-! ## The first and the last item -/

/-- The first item of a chain. -/
def Chain.firstItem : Chain → Item
  | .start _ item _ => item

/-- The last of an item and the items behind it. -/
def Links.lastItem (before : Item) : Links → Item
  | .nil => before
  | .next _ _ item rest => rest.lastItem item

/-- The last item of a chain. -/
def Chain.lastItem : Chain → Item
  | .start _ item rest => rest.lastItem item

/-- No item carries a branch label. -/
def Links.isUnlabelled : Links → Bool
  | .nil => true
  | .next _ label _ rest => label.isNone && rest.isUnlabelled

/-- The items from the last merging separator on, if there is one. -/
def Links.fromLastMerge? : Links → Option Links
  | .nil => none
  | .next merges label item rest =>
    rest.fromLastMerge? <|> if merges then some (.next merges label item rest) else none

/-- The branches of the chain have been merged: no item from the last merging separator on carries a
branch label, or there is no branch label at all. -/
def Chain.isRejoined : Chain → Bool
  | .start label _ rest =>
    label.isNone && rest.isUnlabelled || rest.fromLastMerge?.any Links.isUnlabelled

/-- No branch is open behind the links: none was open before them and none starts in them, or the
branches are merged and none starts from there on. -/
def Links.CloseBranches (front : Front) (links : Links) : Prop :=
  front.fork = none ∧ links.isUnlabelled = true ∨ links.fromLastMerge?.any Links.isUnlabelled = true

/-- Links that merge first close the branches that they close behind a merged front. -/
theorem Links.CloseBranches.of_merge {label : Option BranchLabel} {item : Item} {rest : Links}
    (h : (Links.next true label item rest).CloseBranches front) :
    (Links.next false label item rest).CloseBranches front.merged := by
  have hfork : front.merged.fork = none := by
    obtain ⟨ends, _ | fork⟩ := front <;> rfl
  obtain ⟨-, hunlabelled⟩ | hmerge := h
  · exact Or.inl ⟨hfork, hunlabelled⟩
  · rw [fromLastMerge?] at hmerge
    cases hlater : rest.fromLastMerge? with
    | none =>
      rw [hlater] at hmerge
      exact Or.inl ⟨hfork, hmerge⟩
    | some links =>
      rw [hlater] at hmerge
      refine Or.inr ?_
      rw [fromLastMerge?, hlater]
      exact hmerge

/-- What closes the branches behind a front still does so behind the next item. -/
theorem Links.CloseBranches.of_next {label : Option BranchLabel} {item : Item} {rest : Links}
    (h : (Links.next false label item rest).CloseBranches front) :
    rest.CloseBranches (front.advance label exits) := by
  obtain ⟨hfork, hunlabelled⟩ | hmerge := h
  · rw [isUnlabelled, Bool.and_eq_true, Option.isNone_iff_eq_none] at hunlabelled
    obtain ⟨rfl, hrest⟩ := hunlabelled
    exact Or.inl ⟨hfork, hrest⟩
  · rw [fromLastMerge?] at hmerge
    cases hlater : rest.fromLastMerge? with
    | none =>
      rw [hlater] at hmerge
      exact absurd hmerge Bool.false_ne_true
    | some links =>
      rw [hlater] at hmerge
      refine Or.inr ?_
      rw [hlater]
      exact hmerge

/-- **A chain that starts with a plain step is entered there, and a chain that ends with one is left
there** if no branch is open. -/
theorem isKept_ends :
    IsKept
      (fun number item piece => item.isStep = true →
        piece.entries = [number] ∧ piece.exits = [number + piece.steps.length - 1])
      (fun number chain piece => (chain.firstItem.isStep = true → piece.entries = [number]) ∧
        (chain.isRejoined = true → chain.lastItem.isStep = true →
          piece.exits = [number + piece.steps.length - 1]))
      (fun number front links piece => ∀ before : Item, links.CloseBranches front →
        (links = .nil → before.isStep = true → front.exits = [number - 1]) →
          (links.lastItem before).isStep = true → piece.exits = [number + piece.steps.length - 1])
      (fun _ _ _ => True) where
  step _ _ _ := ⟨rfl, rfl⟩
  parallel _ _ _ _ h := absurd h Bool.false_ne_true
  loop _ _ _ _ _ _ h := absurd h Bool.false_ne_true
  start number item links first rest _ hfirst hrest := by
    refine ⟨fun h => (hfirst h).1, fun hrejoined hlast => ?_⟩
    have hclosed : links.CloseBranches ⟨first.exits, none⟩ := by
      rw [Chain.isRejoined, Bool.or_eq_true, Bool.and_eq_true] at hrejoined
      exact hrejoined.imp_left fun h => ⟨rfl, h.2⟩
    have hlength : (first.continued rest).steps.length = first.steps.length + rest.steps.length :=
      List.length_append
    rw [hlength, ← Nat.add_assoc]
    exact hrest item hclosed (fun _ h => (hfirst h).2) hlast
  nil number front before hclosed hbefore hlast := by
    obtain ⟨hfork, -⟩ := hclosed.resolve_right (by decide)
    show front.allExits = _
    rw [Front.allExits, hfork, hbefore rfl hlast]
    rfl
  next number front label item links first rest _ hfirst hrest before hclosed _ hlast := by
    have hlength : (Piece.follow front label first rest).steps.length =
        first.steps.length + rest.steps.length := List.length_append
    rw [hlength, ← Nat.add_assoc]
    exact hrest item hclosed.of_next (fun _ h => (hfirst h).2) hlast
  merge _ _ _ item _ _ h _ hclosed _ hlast := h item hclosed.of_merge nofun hlast
  last _ _ _ _ := trivial
  cons _ _ _ _ _ _ _ := trivial

/-! ## Diagrams -/

/-- **Flows lose no step.** If the first item of the flow is a plain step, every other node is
reachable from the first one. If the last item is a plain step and the branches have been merged, the
last node is reachable from every other one. -/
theorem read_losesNoStep {options : Options} {source : String} {chain : Chain} {d : Diagram}
    (hread : read options source = .ok d) (hflow : IsFlowOf source (some chain)) :
    (chain.firstItem.isStep = true → ∀ id ∈ d.ids, id ≠ "n0" → id ∈ d.reachable "n0") ∧
      (chain.lastItem.isStep = true → chain.isRejoined = true →
        ∃ last, d.ids.getLast? = some last ∧ ∀ id ∈ d.ids, id ≠ last → last ∈ d.reachable id) := by
  obtain ⟨flow, hother, hassemble⟩ := exists_assemble_of_read hread
  obtain rfl := hflow.unique hother
  obtain ⟨hnone, -⟩ | ⟨chain', piece, hchain, hpiece, hdrawn⟩ := isDrawnBy_of_assemble hassemble
  · exact absurd hnone (by simp)
  obtain rfl := Option.some.inj hchain
  have hconnected := Piece.isKept_connected.chain 0 chain hpiece
  obtain ⟨hentries, hexits⟩ := isKept_ends.chain 0 chain hpiece
  have hbelow := isKept_below.chain 0 chain hpiece
  rw [Nat.zero_add] at hbelow
  constructor
  · intro hfirst id hid hne
    obtain ⟨k, hk, rfl⟩ := hdrawn.exists_owns hid
    obtain ⟨entry, hentry, hleads⟩ := hconnected.entered k hk
    rw [hentries hfirst, List.mem_singleton] at hentry
    subst hentry
    exact hdrawn.mem_reachable hbelow hleads fun hzero => hne (hzero ▸ rfl)
  · intro hlast hrejoined
    have hexits := hexits hrejoined hlast
    rw [Nat.zero_add] at hexits
    refine ⟨Piece.stepId (piece.steps.length - 1), ?_, ?_⟩
    · have hpos : piece.steps.length ≠ 0 := by
        obtain ⟨k, hk⟩ := List.exists_mem_of_ne_nil _ hconnected.entries_ne_nil
        have hlt := (hconnected.owns_entries k hk).2
        omega
      rw [hdrawn.ids, List.getLast?_map, List.getLast?_range, if_neg hpos]
      rfl
    · intro id hid hne
      obtain ⟨k, hk, rfl⟩ := hdrawn.exists_owns hid
      obtain ⟨exit, hexit, hleads⟩ := hconnected.left k hk
      rw [hexits, List.mem_singleton] at hexit
      subst hexit
      exact hdrawn.mem_reachable hbelow hleads fun hlast => hne (hlast ▸ rfl)

/-- Lanes, a loop and two branches that meet again. -/
def branching : String := "A -> parallel(B | loop[again](C -> D)) -> [yes] E -> [no] F => G"

theorem read_losesNoStep_branching :
    ∃ d chain, read {} branching = .ok d ∧ IsFlowOf branching (some chain) ∧
      (chain.firstItem.isStep && chain.lastItem.isStep && chain.isRejoined) = true ∧
      (∀ id ∈ d.ids, id ≠ "n0" → id ∈ d.reachable "n0") ∧
      ∃ last, d.ids.getLast? = some last ∧ ∀ id ∈ d.ids, id ≠ last → last ∈ d.reachable id := by
  have haccepted : (read {} branching).isOk = true := by decide +kernel
  have hshape : ((tokens branching.toList).toOption.bind fun ts => (parse ts).toOption).any
      (fun flow => flow.any fun chain =>
        chain.firstItem.isStep && chain.lastItem.isStep && chain.isRejoined) = true := by
    decide +kernel
  cases hread : read {} branching with
  | error e =>
    rw [hread] at haccepted
    exact absurd haccepted Bool.false_ne_true
  | ok d =>
    obtain ⟨flow, ⟨ts, hts, hparse⟩, -⟩ := exists_assemble_of_read hread
    rw [hts, Except.toOption, Option.bind_some, hparse] at hshape
    cases flow with
    | none => exact absurd hshape Bool.false_ne_true
    | some chain =>
      have hflow : IsFlowOf branching (some chain) := ⟨ts, hts, hparse⟩
      have hchain : (chain.firstItem.isStep && chain.lastItem.isStep && chain.isRejoined) = true :=
        hshape
      obtain ⟨hfirst, hlast⟩ := read_losesNoStep hread hflow
      rw [Bool.and_eq_true, Bool.and_eq_true] at hchain
      exact ⟨d, chain, rfl, hflow, by simp [hchain], hfirst hchain.1.1, hlast hchain.1.2 hchain.2⟩

end Flowchart.Flow
