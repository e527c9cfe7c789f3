import Flowchart.Proofs.Flow.Connected
import Flowchart.Proofs.Flow.Places
import Flowchart.Proofs.Graph.Cyclicity

/-!
# Only loops make flows cyclic

Steps are numbered as they are written, and items behind others are entered from them, so **only the
edges of loops point backward**. Every loop has such an edge, because its body has entries and exits,
and its body leads from each entry to some exit and back. So a diagram of flow text has a cycle
exactly if the flow has a loop, and without one its nodes are ordered as they stand.
-/

namespace Flowchart.Flow

variable {number k : Nat} {piece first second : Piece} {front : Front}

/-! ## Steps and loops of a flow -/

mutual

/-- The steps of an item, as they are written. -/
def Item.steps : Item → List String
  | .step label => [label]
  | .parallel lanes => lanes.steps
  | .loop _ body => body.steps

/-- The steps of a chain. -/
def Chain.steps : Chain → List String
  | .start _ item rest => item.steps ++ rest.steps

/-- The steps of the items behind another. -/
def Links.steps : Links → List String
  | .nil => []
  | .next _ _ item rest => item.steps ++ rest.steps

/-- The steps of parallel lanes. -/
def Lanes.steps : Lanes → List String
  | .last lane => lane.steps
  | .cons lane rest => lane.steps ++ rest.steps

end

mutual

/-- The item is a loop or contains one. -/
def Item.hasLoop : Item → Bool
  | .step _ => false
  | .parallel lanes => lanes.hasLoop
  | .loop _ _ => true

/-- The chain contains a loop at some depth. -/
def Chain.hasLoop : Chain → Bool
  | .start _ item rest => item.hasLoop || rest.hasLoop

/-- One of the items behind another is a loop or contains one. -/
def Links.hasLoop : Links → Bool
  | .nil => false
  | .next _ _ item rest => item.hasLoop || rest.hasLoop

/-- One of the lanes contains a loop. -/
def Lanes.hasLoop : Lanes → Bool
  | .last lane => lane.hasLoop
  | .cons lane rest => lane.hasLoop || rest.hasLoop

end

/-- The steps of a flow, which may be empty. -/
def stepsOf (flow : Option Chain) : List String := flow.elim [] Chain.steps

/-- The flow contains a loop at some depth. -/
def containsLoop (flow : Option Chain) : Bool := flow.any Chain.hasLoop

/-- **A piece has the steps of its part of the flow.** -/
theorem isKept_steps :
    IsKept (fun _ item piece => piece.steps = item.steps)
      (fun _ chain piece => piece.steps = chain.steps)
      (fun _ _ links piece => piece.steps = links.steps)
      (fun _ lanes piece => piece.steps = lanes.steps) where
  step _ _ := rfl
  parallel _ _ _ h := h
  loop _ _ _ _ _ h := h
  start _ _ _ _ _ _ hfirst hrest := congrArg₂ (· ++ ·) hfirst hrest
  nil _ _ := rfl
  next _ _ _ _ _ _ _ _ hfirst hrest := congrArg₂ (· ++ ·) hfirst hrest
  merge _ _ _ _ _ _ h := h
  last _ _ _ h := h
  cons _ _ _ _ _ hfirst hrest := congrArg₂ (· ++ ·) hfirst hrest

/-! ## Backward edges -/

/-- One of these edges leads back to the start of a loop. -/
def HasLoopBack (edges : List StepEdge) : Prop := ∃ e ∈ edges, e.type = .loopBack

/-- There is a way back in two lists of edges if there is one in either. -/
theorem hasLoopBack_append {edges more : List StepEdge} :
    HasLoopBack (edges ++ more) ↔ HasLoopBack edges ∨ HasLoopBack more := by
  simp only [HasLoopBack, List.mem_append, or_and_right, exists_or]

/-- No edge into an item leads back. -/
theorem not_hasLoopBack_edgesInto (front : Front) (label : Option BranchLabel) (entries : List Nat) :
    ¬ HasLoopBack (front.edgesInto label entries) := by
  rintro ⟨e, he, hback⟩
  obtain ⟨-, -, htype, -⟩ := mem_joinAll.1 he
  rw [hback] at htype
  split at htype
  · exact absurd htype (by decide)
  · exact absurd htype (by decide)

/-- Following a front brings in no way back of its own. -/
theorem hasLoopBack_follow (front : Front) (label : Option BranchLabel) :
    HasLoopBack (Piece.follow front label first second).edges ↔
      HasLoopBack first.edges ∨ HasLoopBack second.edges := by
  rw [Piece.edges_follow, hasLoopBack_append, hasLoopBack_append,
    or_iff_right (not_hasLoopBack_edgesInto front label first.entries)]

/-- **The body of a loop leads from an entry to an exit and back.** -/
theorem Piece.Connected.exists_back (h : piece.Connected number) (label : Option String) :
    ∃ entry exit, LeadsTo piece.edges entry exit ∧
      (⟨exit, entry, .loopBack, label⟩ : StepEdge) ∈ (piece.repeated label).edges := by
  obtain ⟨exit, hexit⟩ := List.exists_mem_of_ne_nil _ h.exits_ne_nil
  obtain ⟨entry, hentry, hleads⟩ := h.entered exit (h.owns_exits exit hexit)
  exact ⟨entry, exit, hleads, List.mem_append_right _ (mem_joinAll.2 ⟨hexit, hentry, rfl, rfl⟩)⟩

/-- **A piece has an edge that leads back exactly if its part of the flow has a loop.** -/
theorem isKept_loopBack :
    IsKept (fun _ item piece => HasLoopBack piece.edges ↔ item.hasLoop = true)
      (fun _ chain piece => HasLoopBack piece.edges ↔ chain.hasLoop = true)
      (fun _ _ links piece => HasLoopBack piece.edges ↔ links.hasLoop = true)
      (fun _ lanes piece => HasLoopBack piece.edges ↔ lanes.hasLoop = true) where
  step _ _ := by simp [HasLoopBack, Piece.step, Item.hasLoop]
  parallel _ _ _ h := h
  loop number label body piece hbody _ := by
    obtain ⟨_, _, -, hback⟩ := (Piece.isKept_connected.chain number body hbody).exists_back label
    exact ⟨fun _ => rfl, fun _ => ⟨_, hback, rfl⟩⟩
  start _ _ _ first rest _ hfirst hrest := by
    rw [Chain.hasLoop, Bool.or_eq_true, ← hfirst, ← hrest]
    exact hasLoopBack_append
  nil _ _ := by simp [HasLoopBack, Links.hasLoop]
  next _ _ _ _ _ _ _ _ hfirst hrest := by
    rw [Links.hasLoop, Bool.or_eq_true, ← hfirst, ← hrest]
    exact hasLoopBack_follow _ _
  merge _ _ _ _ _ _ h := h
  last _ _ _ h := h
  cons _ _ _ first rest hfirst hrest := by
    rw [Lanes.hasLoop, Bool.or_eq_true, ← hfirst, ← hrest]
    exact hasLoopBack_append

/-! ## Ways back -/

/-- Edges lead from a step back to it. -/
def IsCyclic (edges : List StepEdge) : Prop := ∃ k, Relation.TransGen (Joined edges) k k

theorem IsCyclic.mono {edges more : List StepEdge} (hsub : edges ⊆ more) (h : IsCyclic edges) :
    IsCyclic more := by
  obtain ⟨k, hk⟩ := h
  exact ⟨k, Relation.TransGen.mono (fun _ _ => Joined.mono hsub) _ _ hk⟩

/-- **A loop is a way back.** -/
theorem isKept_isCyclic :
    IsKept (fun _ item piece => item.hasLoop = true → IsCyclic piece.edges)
      (fun _ chain piece => chain.hasLoop = true → IsCyclic piece.edges)
      (fun _ _ links piece => links.hasLoop = true → IsCyclic piece.edges)
      (fun _ lanes piece => lanes.hasLoop = true → IsCyclic piece.edges) where
  step _ _ h := absurd h Bool.false_ne_true
  parallel _ _ _ h := h
  loop number label body piece hbody _ _ := by
    obtain ⟨entry, exit, hleads, hback⟩ :=
      (Piece.isKept_connected.chain number body hbody).exists_back label
    have hinside : LeadsTo (piece.repeated label).edges entry exit :=
      hleads.mono (List.subset_append_left _ _)
    exact ⟨exit, .head' ⟨_, hback, rfl, rfl⟩ hinside⟩
  start _ _ _ first rest _ hfirst hrest h := by
    obtain h | h := Bool.or_eq_true_iff.1 h
    · exact (hfirst h).mono (List.subset_append_left _ _)
    · exact (hrest h).mono (List.subset_append_right _ _)
  nil _ _ h := absurd h Bool.false_ne_true
  next _ front label _ _ first rest _ hfirst hrest h := by
    obtain ⟨hinside, hbehind⟩ := Piece.edges_subset_follow front label first rest
    obtain h | h := Bool.or_eq_true_iff.1 h
    · exact (hfirst h).mono hinside
    · exact (hrest h).mono hbehind
  merge _ _ _ _ _ _ h := h
  last _ _ _ h := h
  cons _ _ _ first rest hfirst hrest h := by
    obtain h | h := Bool.or_eq_true_iff.1 h
    · exact (hfirst h).mono (List.subset_append_left _ _)
    · exact (hrest h).mono (List.subset_append_right _ _)

/-! ## Forward edges -/

/-- All edges but those of loops lead to later steps. -/
def PointForward (edges : List StepEdge) : Prop :=
  ∀ e ∈ edges, e.type ≠ .loopBack → e.source < e.target

/-- **Edges into an item lead forward**, because it is numbered after the front. -/
theorem pointForward_edgesInto (label : Option BranchLabel) (hfront : front.Below number)
    (hitem : piece.Connected number) : PointForward (front.edgesInto label piece.entries) := by
  intro e he _
  obtain ⟨hsource, htarget, -, -⟩ := mem_joinAll.1 he
  exact Nat.lt_of_lt_of_le (hfront.sources label _ hsource) (hitem.owns_entries _ htarget).1

/-- **Every piece points forward**, but for its ways back. -/
theorem isKept_pointForward :
    IsKept (fun _ _ piece => PointForward piece.edges) (fun _ _ piece => PointForward piece.edges)
      (fun number front _ piece => front.Below number → PointForward piece.edges)
      (fun _ _ piece => PointForward piece.edges) where
  step _ _ := List.forall_mem_nil _
  parallel _ _ _ h := h
  loop _ _ _ _ _ h := by
    refine List.forall_mem_append.2 ⟨h, fun e he hback => ?_⟩
    exact absurd (mem_joinAll.1 he).2.2.1 hback
  start number item _ first _ hpiece hfirst hrest := by
    have hexits := (isKept_below.item number item hpiece).exits
    exact List.forall_mem_append.2 ⟨hfirst, hrest ⟨hexits, by simp⟩⟩
  nil _ _ _ := List.forall_mem_nil _
  next number front label item _ first _ hpiece hfirst hrest hfront := by
    have hexits := (isKept_below.item number item hpiece).exits
    have hadvance := (hfront.mono (Nat.le_add_right _ _)).advance label hexits
    rw [Piece.edges_follow]
    refine List.forall_mem_append.2 ⟨List.forall_mem_append.2 ⟨?_, hfirst⟩, hrest hadvance⟩
    exact pointForward_edgesInto label hfront (Piece.isKept_connected.item number item hpiece)
  merge _ _ _ _ _ _ h hfront := h hfront.merged
  last _ _ _ h := h
  cons _ _ _ _ _ hfirst hrest := List.forall_mem_append.2 ⟨hfirst, hrest⟩

/-! ## Diagrams -/

/-- What the diagram of a flow with some steps shows of it: a node for each step, in order; plain and
conditional edges that lead to later steps; and a cycle, with an edge that leads back, exactly if
there is a loop. -/
structure Shows (d : Diagram) (flow : Option Chain) : Prop where
  ids : d.ids = (List.range (stepsOf flow).length).map Piece.stepId
  labels : d.nodes.map Node.label = stepsOf flow
  forward : ∀ e ∈ d.edges, e.type ≠ .loopBack →
    ∃ i j, i < j ∧ j < (stepsOf flow).length ∧ e.source = Piece.stepId i ∧ e.target = Piece.stepId j
  loopBack_iff : (∃ e ∈ d.edges, e.type = .loopBack) ↔ containsLoop flow = true
  hasCycle_iff : d.hasCycle = true ↔ containsLoop flow = true
  topologicalSort_eq : containsLoop flow = false →
    d.topologicalSort = .ok ((List.range (stepsOf flow).length).map Piece.stepId)

/-- The place of a step among the drawn nodes is its number. -/
theorem idxOf_stepId {count : Nat} (h : k < count) :
    ((List.range count).map Piece.stepId).idxOf (Piece.stepId k) = k := by
  have hnodup : ((List.range count).map Piece.stepId).Nodup := List.nodup_range.map stepId_injective
  have hget := hnodup.idxOf_getElem k (by simpa using h)
  simpa using hget

/-- **A piece with forward edges is drawn as a diagram that is ordered as it stands.** -/
theorem Piece.IsDrawnBy.topologicalSort_eq {d : Diagram} (h : piece.IsDrawnBy d)
    (hbelow : piece.Below piece.steps.length)
    (hforward : ∀ e ∈ piece.edges, e.source < e.target) : d.topologicalSort = .ok d.ids := by
  refine Diagram.topologicalSort_eq_ids fun u v huv => ?_
  obtain ⟨a, b, ⟨e, he, rfl, rfl⟩, rfl, rfl⟩ := (h.joins_iff hbelow).1 huv
  obtain ⟨hsource, htarget⟩ := hbelow.edges e he
  rw [h.ids, idxOf_stepId hsource, idxOf_stepId htarget]
  exact hforward e he

/-- A diagram has an edge back exactly if its piece has one. -/
theorem Piece.IsDrawnBy.exists_loopBack_iff {d : Diagram} (h : piece.IsDrawnBy d) :
    (∃ e ∈ d.edges, e.type = .loopBack) ↔ HasLoopBack piece.edges := by
  rw [h.edges]
  simp only [HasLoopBack, List.mem_map, exists_exists_and_eq_and, Piece.edge]

theorem Piece.IsDrawnBy.shows {d : Diagram} {flow : Option Chain} (h : piece.IsDrawnBy d)
    (hbelow : piece.Below piece.steps.length) (hsteps : piece.steps = stepsOf flow)
    (hforward : PointForward piece.edges)
    (hback : HasLoopBack piece.edges ↔ containsLoop flow = true)
    (hcyclic : containsLoop flow = true → IsCyclic piece.edges) : Shows d flow := by
  have hids := h.ids
  rw [hsteps] at hids
  have hsort : containsLoop flow = false → d.topologicalSort = .ok d.ids := by
    intro hno
    refine h.topologicalSort_eq hbelow fun e he => hforward e he fun hloop => ?_
    rw [hback.1 ⟨e, he, hloop⟩] at hno
    exact absurd hno.symm Bool.false_ne_true
  refine ⟨hids, h.labels.trans hsteps, ?_, h.exists_loopBack_iff.trans hback, ?_,
    fun hno => hids ▸ hsort hno⟩
  · intro e he htype
    rw [h.edges] at he
    obtain ⟨e, hdrawn, rfl⟩ := List.mem_map.1 he
    rw [← hsteps]
    exact ⟨e.source, e.target, hforward e hdrawn htype, (hbelow.edges e hdrawn).2, rfl, rfl⟩
  · rw [Diagram.hasCycle_iff]
    constructor
    · intro hcycle
      by_contra hno
      obtain ⟨error, herror⟩ := Diagram.exists_topologicalSort_eq_error_iff.2 hcycle
      rw [hsort (by simpa using hno)] at herror
      exact absurd herror (by simp)
    · intro hloop hacyclic
      obtain ⟨k, hk⟩ := hcyclic hloop
      exact hacyclic _ (h.leads hbelow hk)

/-- **Only loops make flows cyclic.** Whatever flow text is accepted, its diagram has a node for each
step, in order; its edges lead to later steps but for those of loops; and it has a cycle exactly if
the flow has a loop. -/
theorem read_shows {options : Options} {source : String} {d : Diagram}
    (h : read options source = .ok d) : ∃ flow, IsFlowOf source flow ∧ Shows d flow := by
  obtain ⟨flow, hflow, hassemble⟩ := exists_assemble_of_read h
  refine ⟨flow, hflow, ?_⟩
  obtain ⟨rfl, hdrawn⟩ | ⟨chain, piece, rfl, hpiece, hdrawn⟩ := isDrawnBy_of_assemble hassemble
  · refine hdrawn.shows ⟨List.forall_mem_nil _, List.forall_mem_nil _, List.forall_mem_nil _⟩ rfl
      (List.forall_mem_nil _) ?_ fun h => absurd h Bool.false_ne_true
    simp [HasLoopBack, containsLoop]
  · have hbelow := isKept_below.chain 0 chain hpiece
    rw [Nat.zero_add] at hbelow
    exact hdrawn.shows hbelow (isKept_steps.chain 0 chain hpiece)
      (isKept_pointForward.chain 0 chain hpiece) (isKept_loopBack.chain 0 chain hpiece)
      (isKept_isCyclic.chain 0 chain hpiece)

/-- A loop with a branch inside, in the second of two lanes. -/
def looping : String := "A -> parallel(B | loop[again](C -> [x] D => E)) -> F"

theorem read_shows_looping :
    ∃ d, read {} looping = .ok d ∧ d.hasCycle = true ∧
      ∃ flow, IsFlowOf looping flow ∧ Shows d flow := by
  have hcycle : (read {} looping).toOption.any Diagram.hasCycle = true := by decide +kernel
  cases hread : read {} looping with
  | error e =>
    rw [hread] at hcycle
    exact absurd hcycle Bool.false_ne_true
  | ok d =>
    rw [hread] at hcycle
    exact ⟨d, rfl, hcycle, read_shows hread⟩

end Flowchart.Flow
