import Flowchart.Proofs.Conversion.Recovery

/-!
# Accepted and refused sources

Every notation has a first pass that collects a draft and a second one that resolves it; flow text
goes through tokens and chains instead. Both ways end in the same two outcomes, whatever the source:

* **an accepted source gives a well-formed diagram**: its ids are distinct and not empty, every edge
  has both of its ends, and its metadata are a title and a direction at most;
* a refused source is refused for a reason, so its list of diagnostics is not empty.
-/

namespace Flowchart

open Diagram (titleKey directionKey)

/-! ## Metadata -/

namespace Dictionary

/-- The keys are those of a title and a direction at most, the direction by one of the four codes. -/
def IsUsual (m : Dictionary) : Prop :=
  ∀ p ∈ m.entries, p.1 = titleKey ∨ p.1 = directionKey ∧ p.2 ∈ Direction.all.map Direction.code

theorem isUsual_empty : empty.IsUsual := List.forall_mem_nil _

variable {m : Dictionary}

/-- Inserting a pair adds no other entry. -/
theorem mem_entries_insert {key value : String} {p : String × String}
    (h : p ∈ (m.insert key value).entries) : p ∈ m.entries ∨ p = (key, value) := by
  have hmem : p ∈ Keyed.putAll Prod.fst m.entries [(key, value)] := h
  exact (Keyed.mem_putAll Prod.fst hmem).imp_right List.mem_singleton.1

theorem IsUsual.insert_title (h : m.IsUsual) (title : String) : (m.insert titleKey title).IsUsual := by
  intro p hp
  rcases mem_entries_insert hp with hp | rfl
  · exact h p hp
  · exact Or.inl rfl

theorem IsUsual.insert_direction (h : m.IsUsual) (direction : Direction) :
    (m.insert directionKey direction.code).IsUsual := by
  have hcode : direction.code ∈ Direction.all.map Direction.code :=
    List.mem_map_of_mem (by cases direction <;> decide)
  intro p hp
  rcases mem_entries_insert hp with hp | rfl
  · exact h p hp
  · exact Or.inr ⟨rfl, hcode⟩

end Dictionary

/-- **A draft knows a title and a direction only.** -/
theorem Draft.isUsual_metadata (d : Draft) : d.metadata.IsUsual := by
  have htitled (title : String) := Dictionary.isUsual_empty.insert_title title
  unfold metadata
  dsimp only
  split <;> split
  · exact (htitled _).insert_direction _
  · exact Dictionary.isUsual_empty.insert_direction _
  · exact htitled _
  · exact Dictionary.isUsual_empty

namespace Flow

/-- **Flow text knows a title only**, the one of its options. -/
theorem Options.isUsual_metadata_diagram {options : Options} {nodes : List Node}
    {edges : List Edge} {d : Diagram} (h : options.diagram nodes edges = .ok d) :
    d.metadata.IsUsual := by
  obtain ⟨-, -, -, hmetadata⟩ := Options.diagram_eq_ok h
  rw [hmetadata, Options.metadata]
  cases options.title with
  | none => exact Dictionary.isUsual_empty
  | some title => exact Dictionary.isUsual_empty.insert_title title

theorem isUsual_metadata_of_read {options : Options} {source : String} {d : Diagram}
    (h : read options source = .ok d) : d.metadata.IsUsual := by
  unfold read at h
  split at h
  · exact absurd h (by simp)
  · split at h
    · next e hok =>
      obtain rfl := Except.ok.inj h
      obtain ⟨flow, -, hflow⟩ := bind_eq_ok_iff.1 hok
      cases flow with
      | none =>
        unfold assemble at hflow
        exact Options.isUsual_metadata_diagram (mapError_eq_ok hflow)
      | some chain =>
        unfold assemble at hflow
        obtain ⟨piece, -, hflow⟩ := bind_eq_ok_iff.1 hflow
        exact Options.isUsual_metadata_diagram (mapError_eq_ok hflow)
    · exact absurd h (by simp)

end Flow

/-! ## Drafts -/

/-- Collects the draft of a source in a notation. -/
def Format.draft : Format → List Char → Except Diagnostic Draft
  | .mermaid => Mermaid.draft
  | .plantUml => PlantUml.draft
  | .d2 => D2.draft
  | .dot => Dot.draft

namespace Format

variable {F : Format} {source : String}

/-- **Whatever the notation, reading is collecting a draft and resolving it.** -/
theorem parse_of_draft {d : Draft} (h : F.draft source.toList = .ok d) :
    F.parse source = d.resolve source.toList := by
  cases F <;> simp only [draft] at h <;>
    simp only [Format.parse, Mermaid.read, PlantUml.read, D2.read, Dot.read, h]

theorem parse_of_problem {problem : Diagnostic} (h : F.draft source.toList = .error problem) :
    F.parse source = .error (.single source.toList problem) := by
  cases F <;> simp only [draft] at h <;>
    simp only [Format.parse, Mermaid.read, PlantUml.read, D2.read, Dot.read, h]

/-- A source that is accepted has a draft that resolves. -/
theorem exists_draft_of_parse {d : Diagram} (h : F.parse source = .ok d) :
    ∃ draft, F.draft source.toList = .ok draft ∧ draft.resolve source.toList = .ok d := by
  cases hdraft : F.draft source.toList with
  | error problem =>
    rw [parse_of_problem hdraft] at h
    exact absurd h (by simp)
  | ok draft =>
    rw [parse_of_draft hdraft] at h
    exact ⟨draft, rfl, h⟩

end Format

/-! ## Refusals -/

/-- **A source is refused for a reason.** -/
theorem SourceFormat.diagnostics_ne_nil {options : Flow.Options} {sourceFormat : SourceFormat}
    {source : String} {e : ParseError} (h : sourceFormat.parse options source = .error e) :
    e.diagnostics ≠ [] := by
  cases sourceFormat with
  | text =>
    change Flow.read options source = .error e at h
    unfold Flow.read at h
    split at h
    -- the problems of the tokens
    · next hfound =>
      obtain rfl := Except.error.inj h
      unfold Flow.tokens at hfound
      dsimp only at hfound
      split at hfound
      · exact absurd hfound (by simp)
      · next hproblems =>
        obtain rfl := Except.error.inj hfound
        exact fun hnil => hproblems (List.isEmpty_iff.2 hnil)
    -- the first fault of the chain
    · split at h
      · exact absurd h (by simp)
      · obtain rfl := Except.error.inj h
        exact List.cons_ne_nil _ _
  | structured F =>
    change F.parse source = .error e at h
    cases hdraft : F.draft source.toList with
    | error problem =>
      rw [Format.parse_of_problem hdraft] at h
      obtain rfl := Except.error.inj h
      exact List.cons_ne_nil _ _
    | ok d =>
      rw [Format.parse_of_draft hdraft] at h
      obtain ⟨hne, rfl⟩ := Draft.resolve_eq_error_iff.1 h
      exact fun hnil => hne (List.map_eq_nil_iff.1 hnil)

/-! ## Accepted sources -/

/-- What every later operation on a diagram may rely on. -/
structure Diagram.IsWellFormed (d : Diagram) : Prop where
  id_ne_empty : ∀ id ∈ d.ids, id ≠ ""
  nodup_ids : d.ids.Nodup
  validate_eq : d.validate = .ok ()
  joins : ∀ e ∈ d.edges, e.source ∈ d.ids ∧ e.target ∈ d.ids
  metadata : d.metadata.IsUsual

theorem SourceFormat.isUsual_metadata_of_parse {options : Flow.Options}
    {sourceFormat : SourceFormat} {source : String} {d : Diagram}
    (h : sourceFormat.parse options source = .ok d) : d.metadata.IsUsual := by
  cases sourceFormat with
  | text => exact Flow.isUsual_metadata_of_read h
  | structured F =>
    obtain ⟨draft, -, hresolve⟩ := Format.exists_draft_of_parse h
    obtain ⟨-, rfl⟩ := Draft.resolve_eq_ok_iff.1 hresolve
    exact draft.isUsual_metadata

/-- **Whatever the source, its format and the options, it is read as a well-formed diagram or refused
with a diagnostic at least.** -/
theorem SourceFormat.parse_isWellFormed (options : Flow.Options) (sourceFormat : SourceFormat)
    (source : String) :
    (∀ d, sourceFormat.parse options source = .ok d → d.IsWellFormed) ∧
      ∀ e, sourceFormat.parse options source = .error e → e.diagnostics ≠ [] := by
  refine ⟨fun d h => ?_, fun e h => diagnostics_ne_nil h⟩
  obtain ⟨hvalid, hids⟩ := parse_accepted h
  exact {
    id_ne_empty := List.forall_mem_map.2 hids
    nodup_ids := d.nodup
    validate_eq := hvalid
    joins := Diagram.validate_eq_ok_iff.1 hvalid
    metadata := isUsual_metadata_of_parse h }

/-- Shapes on both sides of an arrow declare its ends; without them the arrow has none. -/
theorem SourceFormat.parse_isWellFormed_arrow :
    (∃ d, (structured .mermaid).parse {} "graph LR\na[é] --> b(y)" = .ok d ∧ d.IsWellFormed) ∧
      ∃ e, (structured .mermaid).parse {} "graph LR\na --> b" = .error e ∧ e.diagnostics ≠ [] := by
  obtain ⟨hok, -⟩ := parse_isWellFormed {} (structured .mermaid) "graph LR\na[é] --> b(y)"
  obtain ⟨-, herror⟩ := parse_isWellFormed {} (structured .mermaid) "graph LR\na --> b"
  constructor
  · have haccepted : ((structured .mermaid).parse {} "graph LR\na[é] --> b(y)").isOk = true := by
      decide +kernel
    cases hparse : (structured .mermaid).parse {} "graph LR\na[é] --> b(y)" with
    | error e => rw [hparse] at haccepted; exact absurd haccepted Bool.false_ne_true
    | ok d => exact ⟨d, rfl, hok d hparse⟩
  · have hrefused : ((structured .mermaid).parse {} "graph LR\na --> b").isOk = false := by
      decide +kernel
    cases hparse : (structured .mermaid).parse {} "graph LR\na --> b" with
    | error e => exact ⟨e, rfl, herror e hparse⟩
    | ok d => rw [hparse] at hrefused; exact absurd hrefused.symm Bool.false_ne_true

end Flowchart
