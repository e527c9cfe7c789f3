import Flowchart.Proofs.Keyed
import Flowchart.Proofs.Source.Steps
import Mathlib.Data.List.Forall2

/-!
# The order of calls

A reader tells a draft what it reads in five kinds of calls: declarations, connections, styles,
titles and directions. `Records` says what a draft knows after a list of calls, one field for each
kind, and a call of one kind changes what the draft knows of that kind only. So **calls of different
kinds may come in any order**: a node may be used before it is declared, and two lists that agree on
the calls of each kind resolve to the same result.
-/

namespace Flowchart

namespace Draft

/-! ## Calls -/

/-- What a reader tells a draft. -/
inductive Call where
  | declare (n : Node) (span : Span)
  | connect (e : Edge) (sourceSpan targetSpan : Span)
  | style (id : Spanned String) (attributes : List (String × String))
  | setTitle (title : String)
  | setDirection (direction : Direction)
  deriving DecidableEq, Repr

namespace Call

/-- The kinds of calls. -/
inductive Kind where
  | declaration
  | connection
  | style
  | title
  | direction
  deriving DecidableEq, Repr

/-- The kind of a call. -/
def kind : Call → Kind
  | declare .. => .declaration
  | connect .. => .connection
  | style .. => .style
  | setTitle .. => .title
  | setDirection .. => .direction

/-- The draft after a call. -/
def perform (d : Draft) : Call → Draft
  | declare n span => d.declare n span
  | connect e sourceSpan targetSpan => d.connect e sourceSpan targetSpan
  | style id attributes => d.style id attributes
  | setTitle title => d.setTitle title
  | setDirection direction => d.setDirection direction

/-- What a call declares. -/
def declaration? : Call → Option (Node × Span)
  | declare n span => some (n, span)
  | _ => none

/-- What a call connects. -/
def connection? : Call → Option DraftEdge
  | connect e sourceSpan targetSpan => some ⟨e, sourceSpan, targetSpan⟩
  | _ => none

/-- What a call styles. -/
def style? : Call → Option DraftStyle
  | style id attributes => some ⟨id, attributes⟩
  | _ => none

/-- The title that a call sets. -/
def title? : Call → Option String
  | setTitle title => some title
  | _ => none

/-- The direction that a call sets. -/
def direction? : Call → Option Direction
  | setDirection direction => some direction
  | _ => none

end Call

/-- The draft after some calls. -/
def ofCalls (calls : List Call) : Draft := calls.foldl Call.perform {}

/-! ## What calls say -/

/-- What is declared, in order. -/
def declarations (calls : List Call) : List (Node × Span) := calls.filterMap Call.declaration?

/-- What is connected, in order. -/
def connections (calls : List Call) : List DraftEdge := calls.filterMap Call.connection?

/-- What is styled, in order. -/
def stylings (calls : List Call) : List DraftStyle := calls.filterMap Call.style?

/-- The title that is set last. -/
def lastTitle? (calls : List Call) : Option String := (calls.filterMap Call.title?).getLast?

/-- The direction that is set last. -/
def lastDirection? (calls : List Call) : Option Direction :=
  (calls.filterMap Call.direction?).getLast?

/-- The id that a declaration declares. -/
def declaredId (p : Node × Span) : String := p.1.id

/-- The declared ids, one for each declaration. -/
def declaredIds (calls : List Call) : List String := (declarations calls).map declaredId

/-- The ids that calls name without declaring them: the ends of the edges, then the styled ids. -/
def uses (calls : List Call) : List (Spanned String) :=
  ((connections calls).flatMap fun c =>
      [⟨c.edge.source, c.sourceSpan⟩, ⟨c.edge.target, c.targetSpan⟩]) ++
    (stylings calls).map DraftStyle.id

/-- The uses of ids that no call declares. -/
def undeclaredUses (calls : List Call) : List (Spanned String) :=
  (uses calls).filter fun use => use.value ∉ declaredIds calls

/-- The declarations of ids that an earlier call declares, each with the first one of its id. -/
def redeclarations (calls : List Call) : List ((Node × Span) × (Node × Span)) :=
  Keyed.repeats declaredId [] (declarations calls)

/-- The attributes that styles set on an id, in order. -/
def attributesFor (calls : List Call) (id : String) : List (String × String) :=
  ((stylings calls).filter fun s => s.id.value = id).flatMap DraftStyle.attributes

/-- The calls declare no node without an id. -/
def DeclaresIds (calls : List Call) : Prop := ∀ p ∈ declarations calls, declaredId p ≠ ""

instance (calls : List Call) : Decidable (DeclaresIds calls) :=
  inferInstanceAs (Decidable (∀ p ∈ declarations calls, declaredId p ≠ ""))

/-! ## What a call changes -/

section Changes

variable (d : Draft) (call : Call)

/-- The first declaration of an id adds its node. -/
theorem nodes_declare {n : Node} (span : Span) (hne : n.id ≠ "") :
    (d.declare n span).nodes =
      if n.id ∈ d.nodes.map declaredId then d.nodes else d.nodes ++ [(n, span)] := by
  rw [declare, if_neg hne]
  split
  · next hfound =>
    have hmem : n.id ∈ d.nodes.map declaredId := by
      by_contra hnew
      exact absurd (hfound.symm.trans (declaration?_eq_none_iff.2 hnew)) (by simp)
    rw [if_pos hmem, report]
  · next hnone =>
    have hnew : n.id ∉ d.nodes.map declaredId := declaration?_eq_none_iff.1 hnone
    rw [if_neg hnew]

/-- Another declaration of an id is a problem. -/
theorem problems_declare {n : Node} (span : Span) (hne : n.id ≠ "") :
    (d.declare n span).problems =
      d.problems ++ (d.declaration? n.id).toList.map fun first => duplicate n.id span first.2 := by
  rw [declare, if_neg hne]
  split
  · next hfound => rw [hfound, report, Option.toList_some, List.map_singleton]
  · next hnone => rw [hnone, Option.toList_none, List.map_nil, List.append_nil]

/-- A call adds what it says of its kind. Only a declaration changes the nodes and the problems. -/
theorem exists_perform_eq : ∃ nodes problems, call.perform d =
    { nodes, problems
      edges := d.edges ++ call.connection?.toList
      styles := d.styles ++ call.style?.toList
      title := call.title?.or d.title
      direction := call.direction?.or d.direction } := by
  cases call with
  | declare n span =>
    rcases declare_cases d n span with ⟨problem, hreport⟩ | ⟨-, -, hadd⟩
    · exact ⟨d.nodes, d.problems ++ [problem], by
        simp [Call.perform, hreport, report, Call.connection?, Call.style?, Call.title?,
          Call.direction?]⟩
    · exact ⟨d.nodes ++ [(n, span)], d.problems, by
        simp [Call.perform, hadd, Call.connection?, Call.style?, Call.title?, Call.direction?]⟩
  | connect | style | setTitle | setDirection =>
    exact ⟨d.nodes, d.problems, by
      simp [Call.perform, connect, style, setTitle, setDirection, Call.connection?, Call.style?,
        Call.title?, Call.direction?]⟩

end Changes

/-! ## What a draft knows -/

/-- The draft knows what the calls say: the first declaration of each id, and every further one as a
problem. -/
structure Records (d : Draft) (calls : List Call) : Prop where
  nodes : d.nodes = Keyed.firstOfEach declaredId (declarations calls)
  edges : d.edges = connections calls
  styles : d.styles = stylings calls
  title : d.title = lastTitle? calls
  direction : d.direction = lastDirection? calls
  problems : d.problems =
    (redeclarations calls).map fun r => duplicate (declaredId r.1) r.1.2 r.2.2

section Runs

variable {d : Draft} {calls : List Call} {call : Call}

/-- One more call contributes last. -/
theorem filterMap_concat {α : Type} (f : Call → Option α) (calls : List Call) (call : Call) :
    (calls ++ [call]).filterMap f = calls.filterMap f ++ (f call).toList := by
  rw [List.filterMap_append]
  cases h : f call <;> simp [h]

theorem declarations_concat (calls : List Call) (call : Call) :
    declarations (calls ++ [call]) = declarations calls ++ call.declaration?.toList :=
  filterMap_concat _ calls call

/-- The declaration of an id that the draft finds is the first one. -/
theorem Records.declaration?_eq (h : Records d calls) (id : String) :
    d.declaration? id = Keyed.find? declaredId id (declarations calls) := by
  rw [declaration?, h.nodes]
  exact Keyed.find?_firstOfEach declaredId id (declarations calls)

/-- **One call** adds to what the draft knows. -/
theorem Records.step (h : Records d calls) (hid : ∀ p ∈ call.declaration?, declaredId p ≠ "") :
    Records (call.perform d) (calls ++ [call]) := by
  obtain ⟨nodes, problems, heq⟩ := d.exists_perform_eq call
  constructor
  case nodes =>
    rw [declarations_concat]
    cases call with
    | declare n span =>
      rw [Call.perform, nodes_declare d span (hid (n, span) rfl), h.nodes, Call.declaration?,
        Option.toList_some, Keyed.firstOfEach_concat]
      exact if_congr (Keyed.mem_map_firstOfEach declaredId) rfl rfl
    | connect | style | setTitle | setDirection =>
      show d.nodes = Keyed.firstOfEach declaredId (declarations calls ++ [])
      rw [List.append_nil, h.nodes]
  case edges => rw [heq, connections, filterMap_concat, h.edges, connections]
  case styles => rw [heq, stylings, filterMap_concat, h.styles, stylings]
  case title =>
    rw [heq, h.title, lastTitle?, lastTitle?, filterMap_concat, List.getLast?_append]
    cases call.title? <;> rfl
  case direction =>
    rw [heq, h.direction, lastDirection?, lastDirection?, filterMap_concat, List.getLast?_append]
    cases call.direction? <;> rfl
  case problems =>
    rw [redeclarations, declarations_concat]
    cases call with
    | declare n span =>
      rw [Call.perform, problems_declare d span (hid (n, span) rfl), h.problems,
        h.declaration?_eq, Call.declaration?, Option.toList_some, Keyed.repeats_concat,
        List.map_append, List.map_map, List.nil_append, redeclarations]
      rfl
    | connect | style | setTitle | setDirection =>
      show d.problems = (Keyed.repeats declaredId [] (declarations calls ++ [])).map _
      rw [List.append_nil, h.problems, redeclarations]

/-- **A run of calls** leaves a draft that knows what they say. -/
theorem records_ofCalls (h : DeclaresIds calls) : Records (ofCalls calls) calls := by
  induction calls using List.reverseRecOn with
  | nil => exact ⟨rfl, rfl, rfl, rfl, rfl, rfl⟩
  | append_singleton calls call ih =>
    rw [DeclaresIds, declarations_concat, List.forall_mem_append] at h
    rw [ofCalls, List.foldl_concat]
    exact (ih h.1).step fun p hp => h.2 p (Option.mem_toList.2 hp)

/-! ## What is complained about -/

/-- A draft has no declaration of an id exactly if no call declared it. -/
theorem Records.isNone_declaration? (h : Records d calls) (id : String) :
    (d.declaration? id).isNone = decide (id ∉ declaredIds calls) := by
  rw [Bool.eq_iff_iff, decide_eq_true_iff, Option.isNone_iff_eq_none, h.declaration?_eq,
    Keyed.find?_eq_none_iff, declaredIds]

/-- A draft complains about every use of an undeclared id. -/
theorem Records.undeclared_eq (h : Records d calls) :
    d.undeclaredEnds ++ d.undeclaredStyles =
      (undeclaredUses calls).map fun use => undeclared use.value use.span := by
  rw [undeclaredUses, uses, List.filter_append, List.map_append, List.filter_flatMap,
    List.map_flatMap, List.filter_map, List.map_map]
  refine congrArg₂ _ ?_ ?_
  · rw [undeclaredEnds, h.edges]
    refine List.flatMap_congr fun c _ => ?_
    simp only [h.isNone_declaration?, List.filter_cons, List.filter_nil]
    split <;> split <;> rfl
  · rw [undeclaredStyles, h.styles]
    simp only [h.isNone_declaration?]
    rfl

/-- Nothing is declared twice exactly if the declared ids are distinct. -/
theorem redeclarations_eq_nil_iff : redeclarations calls = [] ↔ (declaredIds calls).Nodup :=
  Keyed.repeats_eq_nil_iff declaredId

/-- Every use is declared exactly if nothing is undeclared. -/
theorem undeclaredUses_eq_nil_iff :
    undeclaredUses calls = [] ↔ ∀ use ∈ uses calls, use.value ∈ declaredIds calls := by
  rw [undeclaredUses, List.filter_eq_nil_iff]
  simp only [decide_eq_true_eq, not_not]

/-- Nothing is complained about exactly if every id is declared once. -/
theorem Records.complaints_eq_nil_iff (h : Records d calls) :
    d.problems ++ d.undeclaredEnds ++ d.undeclaredStyles = [] ↔
      (declaredIds calls).Nodup ∧ ∀ use ∈ uses calls, use.value ∈ declaredIds calls := by
  rw [List.append_assoc, h.undeclared_eq, h.problems, List.append_eq_nil_iff, List.map_eq_nil_iff,
    List.map_eq_nil_iff, redeclarations_eq_nil_iff, undeclaredUses_eq_nil_iff]

/-- The code and the place of a complaint. -/
def complaint (problem : Diagnostic) : Option String × Option Span :=
  (problem.code.map ErrorCode.name, problem.primarySpan?)

/-- **What a refused draft is refused for.** -/
theorem Records.complaints_eq (h : Records d calls) {source : List Char} {e : ParseError}
    (herror : d.resolve source = .error e) :
    e.diagnostics.map complaint =
      ((redeclarations calls).map fun r => (some "E201", some r.1.2)) ++
        (undeclaredUses calls).map fun use => (some "E200", some use.span) := by
  obtain ⟨-, rfl⟩ := resolve_eq_error_iff.1 herror
  have hlocate : complaint ∘ Diagnostic.locate source = complaint := by
    funext problem
    rw [Function.comp_apply, complaint, Diagnostic.code_locate, Diagnostic.primarySpan?_locate,
      complaint]
  rw [List.map_map, hlocate, List.append_assoc, h.undeclared_eq, h.problems, List.map_append,
    List.map_map, List.map_map]
  rfl

/-! ## The diagram of calls -/

/-- The styled node differs from the declared one only in its attributes: a key stands where it came
first and has the value that came last. -/
structure IsStyled (declared styled : Node) (pairs : List (String × String)) : Prop where
  id_eq : styled.id = declared.id
  label_eq : styled.label = declared.label
  type_eq : styled.type = declared.type
  keys_eq : styled.attributes.entries.map Prod.fst =
    Keyed.firstOfEach id ((declared.attributes.entries ++ pairs).map Prod.fst)
  get?_eq : ∀ key, styled.attributes.get? key =
    ((pairs.filter fun p => p.1 = key).getLast?.map Prod.snd).or (declared.attributes.get? key)

theorem isStyled_withAttributes (n : Node) (pairs : List (String × String)) :
    IsStyled n (n.withAttributes pairs) pairs where
  id_eq := rfl
  label_eq := rfl
  type_eq := rfl
  keys_eq := n.attributes.map_fst_insertAll pairs
  get?_eq := n.attributes.get?_insertAll pairs

/-- The diagram has every declared node in order with the attributes of its styles, every edge in
order, and the last title and direction. -/
structure Collects (e : Diagram) (calls : List Call) : Prop where
  nodes : List.Forall₂ (fun p n => IsStyled p.1 n (attributesFor calls p.1.id)) (declarations calls)
    e.nodes
  edges : e.edges = (connections calls).map DraftEdge.edge
  metadata : e.metadata.entries =
    ((lastTitle? calls).map fun title => (Diagram.titleKey, title)).toList ++
      ((lastDirection? calls).map fun direction => (Diagram.directionKey, direction.code)).toList

/-- Styles one after the other set the attributes of all of them. -/
theorem foldl_withAttributes (styles : List DraftStyle) (n : Node) :
    styles.foldl (fun n s => n.withAttributes s.attributes) n =
      n.withAttributes (styles.flatMap DraftStyle.attributes) := by
  induction styles generalizing n with
  | nil => rfl
  | cons s rest ih =>
    rw [List.foldl_cons, ih, List.flatMap_cons, Node.withAttributes, Node.withAttributes,
      Node.withAttributes, Dictionary.insertAll_append]

/-- A draft gives a node the attributes that calls have set for it, in their order. -/
theorem Records.isStyled (h : Records d calls) (n : Node) :
    IsStyled n (d.styled n) (attributesFor calls n.id) := by
  rw [styled, foldl_withAttributes, h.styles]
  exact isStyled_withAttributes n _

/-- The metadata are the title and the direction, as far as they are set. -/
theorem entries_metadata (d : Draft) : d.metadata.entries =
    (d.title.map fun title => (Diagram.titleKey, title)).toList ++
      (d.direction.map fun direction => (Diagram.directionKey, direction.code)).toList := by
  have hkeys : Diagram.titleKey ≠ Diagram.directionKey := by decide
  unfold metadata
  cases d.title <;> cases d.direction <;>
    simp [Dictionary.insert, Dictionary.empty, Keyed.put, hkeys]

/-- **A draft that resolves has collected what the calls say.** -/
theorem Records.collects (h : Records d calls) (hids : DeclaresIds calls)
    (hnodup : (declaredIds calls).Nodup) : Collects d.diagram calls := by
  have hnodes : d.nodes = declarations calls :=
    h.nodes.trans (Keyed.firstOfEach_eq_self declaredId hnodup)
  have horderly : d.Orderly fun _ => True :=
    { nodup_ids := by rw [hnodes]; exact hnodup
      id_ne_empty := by rw [hnodes]; exact hids
      holds := fun _ _ => trivial }
  refine ⟨?_, ?_, ?_⟩
  · rw [horderly.nodes_diagram, hnodes, List.forall₂_map_right_iff, List.forall₂_same]
    exact fun p _ => h.isStyled p.1
  · rw [edges_diagram, h.edges]
  · rw [← h.title, ← h.direction]
    exact d.entries_metadata

/-! ## The order of calls of different kinds -/

/-- The calls of each kind are the same, in the same order. -/
def SameOfEachKind (calls later : List Call) : Prop :=
  ∀ kind, (calls.filter fun call => call.kind = kind) = later.filter fun call => call.kind = kind

/-- What only calls of one kind say does not depend on the others. -/
theorem SameOfEachKind.filterMap_eq {later : List Call} (h : SameOfEachKind calls later)
    {α : Type} {f : Call → Option α} (kind : Call.Kind)
    (hf : ∀ call, f call = none ∨ call.kind = kind) : calls.filterMap f = later.filterMap f := by
  have hkind : ∀ calls : List Call,
      (calls.filter fun call => call.kind = kind).filterMap f = calls.filterMap f := by
    intro calls
    rw [List.filterMap_filter]
    refine List.filterMap_congr fun call _ => ?_
    by_cases hcall : call.kind = kind
    · simp [hcall]
    · simp [hcall, (hf call).resolve_right hcall]
  rw [← hkind calls, h kind, hkind later]

/-- The order between calls of different kinds does not matter to the declarations. -/
theorem SameOfEachKind.declarations_eq {later : List Call} (h : SameOfEachKind calls later) :
    declarations calls = declarations later :=
  h.filterMap_eq .declaration (by rintro ⟨⟩ <;> simp [Call.declaration?, Call.kind])

/-- What a draft knows does not depend on the order of calls of different kinds. -/
theorem Records.of_same {later : List Call} (h : Records d calls)
    (hsame : SameOfEachKind calls later) : Records d later := by
  have hdeclarations := hsame.declarations_eq
  have hconnections : connections calls = connections later :=
    hsame.filterMap_eq .connection (by rintro ⟨⟩ <;> simp [Call.connection?, Call.kind])
  have hstylings : stylings calls = stylings later :=
    hsame.filterMap_eq .style (by rintro ⟨⟩ <;> simp [Call.style?, Call.kind])
  have htitle : lastTitle? calls = lastTitle? later := congrArg List.getLast?
    (hsame.filterMap_eq .title (by rintro ⟨⟩ <;> simp [Call.title?, Call.kind]))
  have hdirection : lastDirection? calls = lastDirection? later := congrArg List.getLast?
    (hsame.filterMap_eq .direction (by rintro ⟨⟩ <;> simp [Call.direction?, Call.kind]))
  exact
    { nodes := by rw [h.nodes, hdeclarations]
      edges := by rw [h.edges, hconnections]
      styles := by rw [h.styles, hstylings]
      title := by rw [h.title, htitle]
      direction := by rw [h.direction, hdirection]
      problems := by rw [h.problems, redeclarations, redeclarations, hdeclarations] }

/-- A draft is what it knows. -/
theorem Records.unique {d' : Draft} (h : Records d calls) (h' : Records d' calls) : d = d' := by
  obtain ⟨hnodes, hedges, hstyles, htitle, hdirection, hproblems⟩ := h
  obtain ⟨hnodes', hedges', hstyles', htitle', hdirection', hproblems'⟩ := h'
  cases d
  cases d'
  simp_all only

end Runs

/-! ## The order of declarations -/

/-- An edge and two styles before the nodes that they name. -/
def useBeforeDeclaration : List Call :=
  [.connect { source := "a", target := "b" } (.point 0) (.point 1),
    .style ⟨"b", .point 2⟩ [("fill", "red"), ("shape", "oval")], .setTitle "First",
    .style ⟨"b", .point 3⟩ [("fill", "blue")], .declare { id := "a", label := "A" } (.point 4),
    .setTitle "Last", .declare { id := "b", label := "B" } (.point 5), .setDirection .leftRight]

end Draft

end Flowchart
