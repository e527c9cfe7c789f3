import Flowchart.Proofs.Diagram
import Flowchart.Proofs.Graph.Cyclicity
import Mathlib.Data.List.Cycle
import Mathlib.Data.Set.Card

/-!
# What the standard validator means

A diagram is accepted exactly if no rule reports an error, and **errors come from three of the
standard rules only**:

* the rule against cycles reports one for each elementary cycle, taken up to rotation;
* the rule for edges reports one for each end of an edge that is no node;
* the rule for starts and ends reports one for each of the two kinds that does not occur.

What the other five find is never an error, so the verdict is read off the three counts.
-/

namespace Flowchart

/-! ## Counting errors -/

/-- How many errors a rule reports. -/
def Rule.errors (rule : Rule) (d : Diagram) : Nat := Issue.count .error (rule.check d)

/-- An error of a rule is a finding that is one. -/
theorem Rule.errors_eq_countP (rule : Rule) (d : Diagram) :
    rule.errors d = (rule.findings d).countP fun f => f.severity = .error := by
  rw [errors, Issue.count, check, List.countP_map]
  rfl

/-- Where every finding is an error, all of them are counted. -/
theorem Rule.errors_eq_length {rule : Rule} {d : Diagram}
    (h : ∀ f ∈ rule.findings d, f.severity = .error) :
    rule.errors d = (rule.findings d).length := by
  rw [errors_eq_countP, List.countP_eq_length]
  intro f hf
  exact decide_eq_true (h f hf)

namespace Validator

variable {v : Validator} {d : Diagram}

/-- **A validator accepts what has no error.** -/
theorem accepts_iff_count_eq_zero :
    v.accepts d = true ↔ Issue.count .error (v.issues d) = 0 := by
  rw [accepts, Issue.count, List.countP_eq_zero, Bool.not_eq_true', List.any_eq_false]
  simp only [beq_iff_eq, decide_eq_true_eq]

/-- The errors of a validator are those of its rules together. -/
theorem count_error_issues (v : Validator) (d : Diagram) :
    Issue.count .error (v.issues d) = (v.rules.map fun rule => rule.errors d).sum := by
  rw [issues, Issue.count, List.countP_flatMap]
  rfl

end Validator

/-! ## Rules that never fail a diagram -/

/-- The standard rules that only warn or inform. -/
def Rule.advisory : List Rule :=
  [noOrphanedNodes, maxComplexity, uniqueLabels, noSelfLoops, connectedGraph]

/-- The others are the rule against cycles and those for edges and for starts and ends. -/
theorem Rule.defaults_perm :
    Rule.defaults.Perm ([noCycles, validEdges, requireStartEnd] ++ advisory) := by decide

/-- **No finding of an advisory rule is an error.** -/
theorem Rule.severity_ne_error {rule : Rule} (hrule : rule ∈ Rule.advisory) {d : Diagram}
    {f : Finding} (hf : f ∈ rule.findings d) : f.severity ≠ .error := by
  cases rule with
  | noOrphanedNodes =>
    obtain ⟨n, -, rfl⟩ := List.mem_map.1 hf
    exact Severity.noConfusion
  | maxComplexity =>
    rcases List.mem_append.1 hf with hmany | hbranching
    · obtain rfl := List.mem_singleton.1 (List.mem_ite_nil_right.1 hmany).2
      exact Severity.noConfusion
    · obtain rfl := List.mem_singleton.1 (List.mem_ite_nil_right.1 hbranching).2
      exact Severity.noConfusion
  | uniqueLabels =>
    obtain ⟨p, -, rfl⟩ := List.mem_map.1 hf
    exact Severity.noConfusion
  | noSelfLoops =>
    obtain ⟨e, -, rfl⟩ := List.mem_map.1 hf
    exact Severity.noConfusion
  | connectedGraph =>
    rw [findings] at hf
    split at hf
    · exact absurd hf List.not_mem_nil
    · obtain rfl := List.mem_singleton.1 hf
      exact Severity.noConfusion
  | noCycles | requireStartEnd | validEdges => exact absurd hrule (by decide)
  | maxNodes limit | maxEdges limit => exact absurd hrule (by simp [advisory])

theorem Rule.errors_eq_zero {rule : Rule} (h : rule ∈ Rule.advisory) (d : Diagram) :
    rule.errors d = 0 := by
  rw [errors_eq_countP, List.countP_eq_zero]
  intro f hf herror
  exact severity_ne_error h hf (of_decide_eq_true herror)

/-! ## Cycles up to rotation -/

namespace Diagram

variable {d : Diagram}

/-- The elementary cycles of a diagram, where all rotations of a sequence are one cycle. -/
def elementaryCycles (d : Diagram) : Set (Cycle String) :=
  {c | ∃ ids, d.IsElementaryCycle ids ∧ (ids : Cycle String) = c}

/-- Each of them is the cycle of a list that the search reports. -/
theorem elementaryCycles_eq :
    d.elementaryCycles = (d.findCycles.map ((↑) : List String → Cycle String)).toFinset := by
  ext c
  rw [Finset.mem_coe, List.mem_toFinset, List.mem_map]
  constructor
  · rintro ⟨ids, hids, rfl⟩
    obtain ⟨r, hr, hrotated⟩ := hids.exists_mem_findCycles
    exact ⟨r, hr, Cycle.coe_eq_coe.2 hrotated⟩
  · rintro ⟨r, hr, rfl⟩
    exact ⟨r, (mem_findCycles_iff.1 hr).1, rfl⟩

theorem finite_elementaryCycles (d : Diagram) : d.elementaryCycles.Finite := by
  rw [elementaryCycles_eq]
  exact Finset.finite_toSet _

/-- No two lists that the search reports are the same cycle. -/
theorem nodup_map_coe_findCycles (d : Diagram) :
    (d.findCycles.map ((↑) : List String → Cycle String)).Nodup := by
  have hplaces : d.arcs.cycles.Nodup := d.arcs.pairwise_lt_cycles.imp fun hlt => ne_of_lt hlt
  have hlists : d.findCycles.Nodup := hplaces.map (List.map_injective_iff.2 idAt_injective)
  refine hlists.map_on ?_
  intro r hr s hs h
  exact eq_of_mem_findCycles hr hs (Cycle.coe_eq_coe.1 h)

/-- **The search reports each cycle once.** -/
theorem ncard_elementaryCycles (d : Diagram) : d.elementaryCycles.ncard = d.findCycles.length := by
  rw [elementaryCycles_eq, Set.ncard_coe_finset,
    List.toFinset_card_of_nodup d.nodup_map_coe_findCycles, List.length_map]

/-! ## Ends that are missing and kinds that are missing -/

/-- How many ends of edges are no node; an edge without both of its ends counts twice. -/
def missingEndpoints (d : Diagram) : Nat :=
  d.edges.countP (fun e => e.source ∉ d.ids) + d.edges.countP (fun e => e.target ∉ d.ids)

/-- How many of the kinds start and end no node has. -/
def missingTerminals (d : Diagram) : Nat :=
  [NodeType.start, .finish].countP fun kind => kind ∉ d.nodes.map Node.type

/-- No end is missing exactly if no edge dangles. -/
theorem missingEndpoints_eq_zero_iff : d.missingEndpoints = 0 ↔ d.validate = .ok () := by
  rw [missingEndpoints, Nat.add_eq_zero_iff, List.countP_eq_zero, List.countP_eq_zero,
    validate_eq_ok_iff, ← forall₂_and]
  simp only [decide_eq_true_eq, not_not]

theorem missingTerminals_eq_zero_iff :
    d.missingTerminals = 0 ↔
      (∃ n ∈ d.nodes, n.type = .start) ∧ ∃ n ∈ d.nodes, n.type = .finish := by
  rw [missingTerminals, List.countP_eq_zero, List.forall_mem_cons, List.forall_mem_singleton]
  simp only [decide_eq_true_eq, not_not, List.mem_map]

end Diagram

/-! ## Rules that can fail a diagram -/

namespace Rule

/-- One error for each elementary cycle. -/
theorem errors_noCycles (d : Diagram) : noCycles.errors d = d.elementaryCycles.ncard := by
  rw [d.ncard_elementaryCycles, errors_eq_length, findings, List.length_map]
  intro f hf
  obtain ⟨ids, -, rfl⟩ := List.mem_map.1 hf
  rfl

/-- Each end of an edge that is no node is missing. -/
theorem length_missingEnds (d : Diagram) (e : Edge) : (missingEnds d e).length =
    (if e.source ∉ d.ids then 1 else 0) + if e.target ∉ d.ids then 1 else 0 := by
  have hcontains : ∀ id, (!d.contains id) = decide (id ∉ d.ids) := by
    intro id
    rw [Bool.eq_iff_iff, decide_eq_true_iff, Bool.not_eq_true', ← Bool.not_eq_true,
      Diagram.contains_iff_mem_ids]
  rw [missingEnds, ← List.countP_eq_length_filter, List.countP_cons, List.countP_singleton,
    Nat.add_comm]
  simp only [hcontains, decide_eq_true_eq]

/-- One error for each missing end. -/
theorem errors_validEdges (d : Diagram) : validEdges.errors d = d.missingEndpoints := by
  rw [errors_eq_length, findings, List.length_map, List.length_flatMap, Diagram.missingEndpoints]
  · induction d.edges with
    | nil => rfl
    | cons e rest ih =>
      rw [List.map_cons, List.sum_cons, ih, length_missingEnds, List.countP_cons, List.countP_cons]
      simp only [decide_eq_true_eq]
      omega
  · intro f hf
    obtain ⟨p, -, rfl⟩ := List.mem_map.1 hf
    rfl

/-- One error for each missing kind. -/
theorem errors_requireStartEnd (d : Diagram) : requireStartEnd.errors d = d.missingTerminals := by
  have hany : ∀ kind,
      (d.nodes.any fun n => n.type == kind) = true ↔ kind ∈ d.nodes.map Node.type := by
    intro kind
    rw [List.any_eq_true, List.mem_map]
    simp only [beq_iff_eq]
  rw [errors_eq_length, findings, List.length_append, Diagram.missingTerminals, List.countP_cons,
    List.countP_singleton, Nat.add_comm]
  · simp only [hany, apply_ite List.length, decide_eq_true_eq, ite_not]
    rfl
  · intro f hf
    rcases List.mem_append.1 hf with hstart | hfinish
    · obtain rfl := List.mem_singleton.1 (List.mem_ite_nil_left.1 hstart).2
      rfl
    · obtain rfl := List.mem_singleton.1 (List.mem_ite_nil_left.1 hfinish).2
      rfl

end Rule

/-! ## The verdict -/

namespace Validator

/-- The errors of the standard validator are those of three rules. -/
theorem count_error_standard (d : Diagram) :
    Issue.count .error (standard.issues d) =
      d.elementaryCycles.ncard + d.missingEndpoints + d.missingTerminals := by
  have hadvisory : (Rule.advisory.map fun rule => rule.errors d).sum = 0 := by
    apply List.sum_eq_zero
    intro errors herrors
    obtain ⟨rule, hrule, rfl⟩ := List.mem_map.1 herrors
    exact Rule.errors_eq_zero hrule d
  calc Issue.count .error (standard.issues d)
    _ = (Rule.defaults.map fun rule => rule.errors d).sum := count_error_issues standard d
    _ = (([Rule.noCycles, .validEdges, .requireStartEnd] ++ Rule.advisory).map
          fun rule => rule.errors d).sum := (Rule.defaults_perm.map _).sum_eq
    _ = Rule.noCycles.errors d + Rule.validEdges.errors d + Rule.requireStartEnd.errors d := by
      rw [List.map_append, List.sum_append, hadvisory]
      simp only [List.map_cons, List.map_nil, List.sum_cons, List.sum_nil]
      omega
    _ = d.elementaryCycles.ncard + d.missingEndpoints + d.missingTerminals := by
      rw [Rule.errors_noCycles, Rule.errors_validEdges, Rule.errors_requireStartEnd]

/-- **The standard validator means what it says.** A diagram is accepted exactly if no connected edges
lead from a node back to it, no edge dangles, and there are a start and an end; and as many errors are
reported as there are elementary cycles up to rotation, ends of edges that are no node, and kinds
among start and end that do not occur. -/
theorem standard_isExact (d : Diagram) :
    (standard.accepts d = true ↔ d.IsAcyclic ∧ d.validate = .ok () ∧
      (∃ n ∈ d.nodes, n.type = .start) ∧ ∃ n ∈ d.nodes, n.type = .finish) ∧
    d.elementaryCycles.Finite ∧
    Issue.count .error (standard.issues d) =
      d.elementaryCycles.ncard + d.missingEndpoints + d.missingTerminals := by
  refine ⟨?_, d.finite_elementaryCycles, count_error_standard d⟩
  have hcycles : d.elementaryCycles.ncard = 0 ↔ d.IsAcyclic := by
    rw [d.ncard_elementaryCycles, List.length_eq_zero_iff]
    exact not_iff_not.1 Diagram.findCycles_ne_nil_iff
  rw [accepts_iff_count_eq_zero, count_error_standard, Nat.add_eq_zero_iff, Nat.add_eq_zero_iff,
    hcycles, Diagram.missingEndpoints_eq_zero_iff, Diagram.missingTerminals_eq_zero_iff, and_assoc]

end Validator

end Flowchart
