import Flowchart.Proofs.Flow.Places

/-!
# Labels in front of chains

A label starts a branch, and in front of a chain there is nothing to branch from. This may happen at
any depth: in the flow itself, in a lane or in the body of a loop. **A flow has a diagram unless one of
its chains has a label in front**, and then the first such label is the fault.
-/

namespace Flowchart.Flow

variable {α β : Type}

/-! ## The chains of a flow -/

/-- The label in front of the first item. -/
def Chain.leadingLabel? : Chain → Option BranchLabel
  | .start label _ _ => label

mutual

/-- The chains inside an item. -/
def Item.chains : Item → List Chain
  | .step _ => []
  | .parallel lanes => lanes.chains
  | .loop _ body => body.chains

/-- A chain and those inside it, as they are written. -/
def Chain.chains : Chain → List Chain
  | .start label item rest => .start label item rest :: (item.chains ++ rest.chains)

/-- The chains inside further items. -/
def Links.chains : Links → List Chain
  | .nil => []
  | .next _ _ item rest => item.chains ++ rest.chains

/-- The lanes and the chains inside them. -/
def Lanes.chains : Lanes → List Chain
  | .last lane => lane.chains
  | .cons lane rest => lane.chains ++ rest.chains

end

/-- All chains of a flow, at any depth. -/
def chainsOf (flow : Option Chain) : List Chain := flow.elim [] Chain.chains

/-! ## The fault that is reported -/

/-- The fault of the first chain with a label in front. -/
def leadingFault (chains : List Chain) : Option FlowFault :=
  (chains.findSome? Chain.leadingLabel?).map fun label => .leadingBranch label.span

/-- The result is the fault of the first of these chains with a label in front, if there is one. -/
def FailsAt (result : Except FlowFault α) (chains : List Chain) : Prop :=
  ∀ fault, result = .error fault ↔ leadingFault chains = some fault

theorem failsAt_ok (a : α) : FailsAt (.ok a) [] := fun _ => by simp [leadingFault]

theorem leadingFault_append (chains more : List Chain) :
    leadingFault (chains ++ more) = (leadingFault chains).or (leadingFault more) := by
  rw [leadingFault, leadingFault, leadingFault, List.findSome?_append, Option.map_or]

/-- What comes second is only reached if there is no fault in what comes first. -/
theorem FailsAt.bind {result : Except FlowFault α} {next : α → Except FlowFault β}
    {chains more : List Chain} (h : FailsAt result chains) (hnext : ∀ a, FailsAt (next a) more) :
    FailsAt (result >>= next) (chains ++ more) := by
  intro fault
  rw [leadingFault_append]
  cases result with
  | error found =>
    rw [(h found).1 rfl, Option.some_or, Option.some.injEq]
    exact ⟨Except.error.inj, congrArg Except.error⟩
  | ok a =>
    have hnone : leadingFault chains = none :=
      Option.eq_none_iff_forall_ne_some.2 fun found hfound => by simpa using (h found).2 hfound
    rw [hnone, Option.none_or]
    exact hnext a fault

theorem FailsAt.map {result : Except FlowFault α} {chains : List Chain} (h : FailsAt result chains)
    (f : α → β) : FailsAt (result >>= fun a => pure (f a)) chains := by
  have hbind := h.bind fun a => failsAt_ok (f a)
  rwa [List.append_nil] at hbind

mutual

theorem Item.failsAt_piece (item : Item) (number : Nat) :
    FailsAt (item.piece number) item.chains := by
  cases item with
  | step label =>
    unfold Item.piece Item.chains
    exact failsAt_ok _
  | parallel lanes =>
    unfold Item.piece Item.chains
    exact Lanes.failsAt_piece lanes number
  | loop label body =>
    unfold Item.piece Item.chains
    exact (Chain.failsAt_piece body number).map _

/-- **A chain has a piece unless it, or a chain inside it, has a label in front.** -/
theorem Chain.failsAt_piece (chain : Chain) (number : Nat) :
    FailsAt (chain.piece number) chain.chains := by
  obtain ⟨_ | label, item, links⟩ := chain
  · unfold Chain.piece Chain.chains
    have hitem := Item.failsAt_piece item number
    exact hitem.bind fun first => (Links.failsAt_piece links _ _).map _
  · unfold Chain.piece Chain.chains
    intro fault
    exact ⟨fun h => congrArg some (Except.error.inj h),
      fun h => congrArg Except.error (Option.some.inj h)⟩

theorem Links.failsAt_piece (links : Links) (number : Nat) (front : Front) :
    FailsAt (links.piece number front) links.chains := by
  cases links with
  | nil =>
    unfold Links.piece Links.chains
    exact failsAt_ok _
  | next merges label item links =>
    unfold Links.piece Links.chains
    exact (Item.failsAt_piece item number).bind fun first => (Links.failsAt_piece links _ _).map _

theorem Lanes.failsAt_piece (lanes : Lanes) (number : Nat) :
    FailsAt (lanes.piece number) lanes.chains := by
  cases lanes with
  | last lane =>
    unfold Lanes.piece Lanes.chains
    exact Chain.failsAt_piece lane number
  | cons lane lanes =>
    unfold Lanes.piece Lanes.chains
    exact (Chain.failsAt_piece lane number).bind fun first => (Lanes.failsAt_piece lanes _).map _

end

/-- A flow cannot be assembled exactly if one of its chains has a label in front. -/
theorem assemble_eq_error_iff_leadingFault (options : Options) (flow : Option Chain)
    (fault : FlowFault) :
    assemble options flow = .error fault ↔ leadingFault (chainsOf flow) = some fault := by
  cases flow with
  | none =>
    obtain ⟨d, hd, -⟩ := exists_assemble_none options
    rw [hd]
    exact iff_of_false (by simp) (by simp [chainsOf, leadingFault])
  | some chain => exact assemble_eq_error_iff.trans (Chain.failsAt_piece chain 0 fault)

end Flowchart.Flow
