import Flowchart.Flow.Assembly
import Flowchart.Proofs.Source.Steps
import Mathlib.Logic.Relation

/-!
# Pieces along the tree

Assembly goes along the tree and can only fail at a label in front of a chain. **What every way to
make a piece keeps holds of every piece that is made** (`IsKept`); this is the one induction over
items, chains, links and lanes, and a property of pieces only has to look at one piece at a time.
-/

namespace Flowchart.Flow

variable {number k : Nat} {piece first second : Piece}

/-! ## Ways to make a piece -/

/-- A piece and what follows it in the same chain. -/
def Piece.continued (first rest : Piece) : Piece :=
  { first.beside rest with entries := first.entries, exits := rest.exits }

/-- The steps from which an item behind a front is entered. -/
def Front.sources (front : Front) (label : Option BranchLabel) : List Nat :=
  if label.isSome then front.branched.points else front.exits

/-- The edges into an item behind a front. -/
def Front.edgesInto (front : Front) (label : Option BranchLabel) (entries : List Nat) :
    List StepEdge :=
  joinAll (front.sources label) entries (if label.isSome then .conditional else .plain)
    (label.map Spanned.value)

/-- The joined edges are those from any of the sources to any of the targets. -/
theorem mem_joinAll {sources targets : List Nat} {type : EdgeType} {label : Option String}
    {e : StepEdge} : e ∈ joinAll sources targets type label ↔
      e.source ∈ sources ∧ e.target ∈ targets ∧ e.type = type ∧ e.label = label := by
  rw [joinAll, List.mem_flatMap]
  constructor
  · rintro ⟨source, hsource, he⟩
    obtain ⟨target, htarget, rfl⟩ := List.mem_map.1 he
    exact ⟨hsource, htarget, rfl, rfl⟩
  · rintro ⟨hsource, htarget, rfl, rfl⟩
    exact ⟨e.source, hsource, List.mem_map.2 ⟨e.target, htarget, rfl⟩⟩

/-- Following a front adds the edges into the item to those of the item and of what is behind it. -/
theorem Piece.edges_follow (front : Front) (label : Option BranchLabel) (item rest : Piece) :
    (Piece.follow front label item rest).edges =
      front.edgesInto label item.entries ++ item.edges ++ rest.edges := by
  cases label <;> rfl

theorem Piece.edges_subset_follow (front : Front) (label : Option BranchLabel) (item rest : Piece) :
    item.edges ⊆ (Piece.follow front label item rest).edges ∧
      rest.edges ⊆ (Piece.follow front label item rest).edges := by
  rw [edges_follow]
  exact ⟨fun e he => List.mem_append_left _ (List.mem_append_right _ he),
    List.subset_append_right _ _⟩

/-! ## Steps of a piece -/

/-- The step is one of the piece, whose first step has this number. -/
def Piece.Owns (piece : Piece) (number k : Nat) : Prop :=
  number ≤ k ∧ k < number + piece.steps.length

/-- The steps of a piece with two parts are those of the first and then those of the second. -/
theorem Piece.owns_iff (hsteps : piece.steps = first.steps ++ second.steps) :
    piece.Owns number k ↔ first.Owns number k ∨ second.Owns (number + first.steps.length) k := by
  unfold Owns
  rw [hsteps, List.length_append]
  omega

/-! ## What every piece keeps -/

/-- What holds of the pieces of items, chains, links and lanes because every way to make a piece
keeps it. The number is that of the first step; what links make also depends on the front before
them. That the parts are made in the same way is at hand, for what was shown of them before. -/
structure IsKept (ofItem : Nat → Item → Piece → Prop) (ofChain : Nat → Chain → Piece → Prop)
    (ofLinks : Nat → Front → Links → Piece → Prop) (ofLanes : Nat → Lanes → Piece → Prop) :
    Prop where
  step : ∀ number label, ofItem number (.step label) (.step number label)
  parallel : ∀ number lanes piece, ofLanes number lanes piece → ofItem number (.parallel lanes) piece
  loop : ∀ number label body piece, body.piece number = .ok piece → ofChain number body piece →
    ofItem number (.loop label body) (piece.repeated label)
  start : ∀ number item links first rest, item.piece number = .ok first → ofItem number item first →
    ofLinks (number + first.steps.length) ⟨first.exits, none⟩ links rest →
    ofChain number (.start none item links) (first.continued rest)
  nil : ∀ number front, ofLinks number front .nil { exits := front.allExits }
  next : ∀ number front label item links first rest, item.piece number = .ok first →
    ofItem number item first →
    ofLinks (number + first.steps.length) (front.advance label first.exits) links rest →
    ofLinks number front (.next false label item links) (.follow front label first rest)
  merge : ∀ number front label item links piece,
    ofLinks number front.merged (.next false label item links) piece →
    ofLinks number front (.next true label item links) piece
  last : ∀ number lane piece, ofChain number lane piece → ofLanes number (.last lane) piece
  cons : ∀ number lane lanes first rest, ofChain number lane first →
    ofLanes (number + first.steps.length) lanes rest →
    ofLanes number (.cons lane lanes) (first.beside rest)

namespace IsKept

variable {ofItem : Nat → Item → Piece → Prop} {ofChain : Nat → Chain → Piece → Prop}
  {ofLinks : Nat → Front → Links → Piece → Prop} {ofLanes : Nat → Lanes → Piece → Prop}

mutual

/-- What is kept holds for the piece of an item. -/
theorem item (h : IsKept ofItem ofChain ofLinks ofLanes) (number : Nat) (item : Item) {piece : Piece}
    (hpiece : item.piece number = .ok piece) : ofItem number item piece := by
  cases item with
  | step label =>
    unfold Item.piece at hpiece
    obtain rfl := Except.ok.inj hpiece
    exact h.step number label
  | parallel lanes =>
    unfold Item.piece at hpiece
    exact h.parallel _ _ _ (h.lanes number lanes hpiece)
  | loop label body =>
    unfold Item.piece at hpiece
    obtain ⟨inner, hinner, hpiece⟩ := bind_eq_ok_iff.1 hpiece
    obtain rfl := Except.ok.inj hpiece
    exact h.loop _ _ _ _ hinner (h.chain number body hinner)

/-- It holds for the piece of a chain. -/
theorem chain (h : IsKept ofItem ofChain ofLinks ofLanes) (number : Nat) (chain : Chain)
    {piece : Piece} (hpiece : chain.piece number = .ok piece) : ofChain number chain piece := by
  cases chain with
  | start label item links =>
    cases label with
    | some label =>
      unfold Chain.piece at hpiece
      exact absurd hpiece (by simp)
    | none =>
      unfold Chain.piece at hpiece
      obtain ⟨first, hfirst, hpiece⟩ := bind_eq_ok_iff.1 hpiece
      obtain ⟨rest, hrest, hpiece⟩ := bind_eq_ok_iff.1 hpiece
      obtain rfl := Except.ok.inj hpiece
      exact h.start _ _ _ _ _ hfirst (h.item number item hfirst) (h.links _ _ links hrest)

/-- It holds for the piece of links behind their front. -/
theorem links (h : IsKept ofItem ofChain ofLinks ofLanes) (number : Nat) (front : Front)
    (links : Links) {piece : Piece} (hpiece : links.piece number front = .ok piece) :
    ofLinks number front links piece := by
  cases links with
  | nil =>
    unfold Links.piece at hpiece
    obtain rfl := Except.ok.inj hpiece
    exact h.nil number front
  | next merges label item links =>
    unfold Links.piece at hpiece
    obtain ⟨first, hfirst, hpiece⟩ := bind_eq_ok_iff.1 hpiece
    obtain ⟨rest, hrest, hpiece⟩ := bind_eq_ok_iff.1 hpiece
    obtain rfl := Except.ok.inj hpiece
    have hitem := h.item number item hfirst
    have hlinks := h.links _ _ links hrest
    cases merges with
    | false => exact h.next _ _ _ _ _ _ _ hfirst hitem hlinks
    | true => exact h.merge _ _ _ _ _ _ (h.next _ _ _ _ _ _ _ hfirst hitem hlinks)

/-- It holds for the piece of lanes. -/
theorem lanes (h : IsKept ofItem ofChain ofLinks ofLanes) (number : Nat) (lanes : Lanes)
    {piece : Piece} (hpiece : lanes.piece number = .ok piece) : ofLanes number lanes piece := by
  cases lanes with
  | last lane =>
    unfold Lanes.piece at hpiece
    exact h.last _ _ _ (h.chain number lane hpiece)
  | cons lane lanes =>
    unfold Lanes.piece at hpiece
    obtain ⟨first, hfirst, hpiece⟩ := bind_eq_ok_iff.1 hpiece
    obtain ⟨rest, hrest, hpiece⟩ := bind_eq_ok_iff.1 hpiece
    obtain rfl := Except.ok.inj hpiece
    exact h.cons _ _ _ _ _ (h.chain number lane hfirst) (h.lanes _ lanes hrest)

end

end IsKept

/-! ## Edges between steps -/

/-- One of these edges joins two steps. -/
def Joined (edges : List StepEdge) (a b : Nat) : Prop := ∃ e ∈ edges, e.source = a ∧ e.target = b

/-- Some of these edges, one after the other, lead from a step to a step. -/
def LeadsTo (edges : List StepEdge) : Nat → Nat → Prop := Relation.ReflTransGen (Joined edges)

variable {edges more : List StepEdge} {a b : Nat}

theorem Joined.mono (hsub : edges ⊆ more) (h : Joined edges a b) : Joined more a b := by
  obtain ⟨e, he, hends⟩ := h
  exact ⟨e, hsub he, hends⟩

theorem LeadsTo.mono (hsub : edges ⊆ more) (h : LeadsTo edges a b) : LeadsTo more a b :=
  Relation.ReflTransGen.mono (fun _ _ => Joined.mono hsub) _ _ h

theorem joined_joinAll {sources targets : List Nat} (type : EdgeType) (label : Option String)
    (ha : a ∈ sources) (hb : b ∈ targets) : Joined (joinAll sources targets type label) a b :=
  ⟨⟨a, b, type, label⟩, mem_joinAll.2 ⟨ha, hb, rfl, rfl⟩, rfl, rfl⟩

end Flowchart.Flow
