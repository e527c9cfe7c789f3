import Flowchart.Proofs.D2.Reading
import Flowchart.Proofs.Source.Facts

/-!
# D2 is read as it was written

Every line that is written says one `Fact`: the line of the direction, that of the title, one for each
node and one for each edge. The reader gains these facts line by line, so **a diagram is read back
from its D2 source** but for attributes called `shape` or `label`, which are not written.
-/

namespace Flowchart.D2

open Reader (Reads)
open Text (isBlank isWordChar lower sameLetters)
open Text.Quoted (encode)

/-! ## Entries of nodes and edges -/

/-- The written entries of a node, each with what it says. -/
def nodeItems (n : Node) : List (List Char × Entry) :=
  ((shape? n.type).toList.map fun s => ("shape: ".toList ++ s.toList, ⟨"shape", s⟩)) ++
    (writtenAttributes n).map fun p =>
      (mapKey p.1 ++ ':' :: ' ' :: encode p.2.toList, ⟨p.1, p.2⟩)

/-- The written style of an edge, with what it says. -/
def styleItems (e : Edge) : List (List Char × Entry) :=
  (style? e.type).toList.map fun p => (p.1.toList ++ ':' :: ' ' :: p.2.toList, ⟨p.1, p.2⟩)

/-- A bare value behind a bare key. -/
theorem spellsEntry_bare (name value : String)
    (hname : name.toList ≠ [] ∧ (∀ c ∈ name.toList, isKeyChar c = true) ∧
      Text.breakAt? ['-', '-'] name.toList = none)
    (hvalue : value.toList ≠ [] ∧ ∀ c ∈ value.toList, isValueChar c = true) :
    SpellsEntry (name.toList ++ ':' :: ' ' :: value.toList) ⟨name, value⟩ := by
  obtain ⟨hne, hall, hdash⟩ := hname
  have hkey : SpellsKey name.toList (String.ofList name.toList) fun _ => True :=
    spellsKey_bare hne hall (noDoubleDash_of_breakAt? hdash) trivial
  rw [String.ofList_toList] at hkey
  exact ⟨_, _, rfl, hkey, spellsValue_bare value hvalue.1 hvalue.2⟩

/-- Every item of a node spells an entry. -/
theorem spellsEntry_nodeItems (n : Node) : ∀ p ∈ nodeItems n, SpellsEntry p.1 p.2 := by
  intro p hp
  rw [nodeItems, List.mem_append, List.mem_map, List.mem_map] at hp
  rcases hp with ⟨s, hs, rfl⟩ | ⟨a, -, rfl⟩
  · refine spellsEntry_bare "shape" s (by decide) ?_
    rw [Option.mem_toList] at hs
    cases htype : n.type <;> rw [htype] at hs <;> cases hs <;> decide
  · exact ⟨_, _, rfl, spellsKey_mapKey a.1, spellsValue_encode a.2⟩

/-- Every item of an edge spells an entry. -/
theorem spellsEntry_styleItems (e : Edge) : ∀ p ∈ styleItems e, SpellsEntry p.1 p.2 := by
  intro p hp
  rw [styleItems, List.mem_map] at hp
  obtain ⟨s, hs, rfl⟩ := hp
  rw [Option.mem_toList] at hs
  cases htype : e.type <;> rw [htype] at hs <;> cases hs
  · exact spellsEntry_bare "style.bold" "true" (by decide) (by decide)
  · exact spellsEntry_bare "style.stroke-dash" "3" (by decide) (by decide)

/-- A node is its key, its label, and a map of its items. -/
theorem nodeLine_eq (n : Node) :
    nodeLine n = nodeKey n.id ++
      (':' :: ' ' :: (encode n.label.toList ++ map ((nodeItems n).map Prod.fst))) := by
  have hmap : nodeEntries n = (nodeItems n).map Prod.fst := by
    simp [nodeItems, nodeEntries, Function.comp_def]
  rw [nodeLine, hmap, List.append_assoc, List.cons_append, List.cons_append]

/-- What stands behind the keys of a written edge. -/
def edgeTail (e : Edge) : List Char :=
  match e.label with
  | some label => ':' :: ' ' :: (encode label.toList ++ map ((styleItems e).map Prod.fst))
  | none => if (styleItems e).isEmpty then [] else ':' :: map ((styleItems e).map Prod.fst)

/-- An edge is two keys with an arrow between them and a tail. -/
theorem edgeLine_eq (e : Edge) :
    edgeLine e = nodeKey e.source ++ (" -> ".toList ++ (nodeKey e.target ++ edgeTail e)) := by
  have hmap : ((style? e.type).toList.map fun p => p.1.toList ++ ':' :: ' ' :: p.2.toList) =
      (styleItems e).map Prod.fst := by
    simp [styleItems, Function.comp_def]
  rw [edgeLine, hmap, edgeTail]
  cases e.label <;> cases styleItems e <;> simp [map]

/-- The tail of an edge closes with its label and its style. -/
theorem closes_edgeTail (e : Edge) :
    Closes (edgeTail e) e.label ((styleItems e).map Prod.snd) := by
  have hitems := spellsEntry_styleItems e
  unfold edgeTail
  -- a colon is written where there is a label or a style
  cases hlabel : e.label with
  | some label => exact .colon (reads_body_label hitems label)
  | none =>
    cases hstyle : styleItems e with
    | nil => exact .nothing
    | cons p rest =>
      rw [hstyle] at hitems
      exact .colon (reads_body_map hitems (List.cons_ne_nil p rest))

/-! ## What entries give -/

/-- **The shape of a type stands for that type.** -/
theorem ofShape?_shape? {t : NodeType} {s : String} (h : shape? t = some s) :
    ofShape? s = some t := by
  cases t <;> cases h <;> decide

/-- Only a node without a type is written without a shape. -/
theorem shape?_eq_none {t : NodeType} : shape? t = none ↔ t = .unspecified := by
  cases t <;> decide

/-- A node has its shape, if there is one, and then the attributes that are written. -/
theorem map_snd_nodeItems (n : Node) :
    (nodeItems n).map Prod.snd =
      ((shape? n.type).toList.map fun s => (⟨"shape", s⟩ : Entry)) ++
        (writtenAttributes n).map fun a => ⟨a.1, a.2⟩ := by
  simp [nodeItems, Function.comp_def]

/-- The attributes that are written never set shape or label once more. -/
theorem ne_of_mem_writtenAttributes {n : Node} {a : String × String}
    (h : a ∈ writtenAttributes n) : a.1 ≠ "shape" ∧ a.1 ≠ "label" := by
  simpa [writtenAttributes] using (List.mem_filter.1 h).2

/-- The entry called `shape` stands first, and no attribute is called so. -/
theorem find?_shape_nodeItems (n : Node) :
    (((nodeItems n).map Prod.snd).find? fun e => e.key = "shape").map Entry.value =
      shape? n.type := by
  have hnone : ((writtenAttributes n).map fun a => (⟨a.1, a.2⟩ : Entry)).find?
      (fun e => e.key = "shape") = none := by
    rw [List.find?_eq_none]
    intro e he
    obtain ⟨a, ha, rfl⟩ := List.mem_map.1 he
    simpa using (ne_of_mem_writtenAttributes ha).1
  rw [map_snd_nodeItems, List.find?_append, hnone, Option.or_none]
  cases shape? n.type <;> simp

/-- The other entries are the attributes. -/
theorem filter_nodeItems (n : Node) :
    ((nodeItems n).map Prod.snd).filter (fun e => e.key ≠ "shape" && e.key ≠ "label") =
      (writtenAttributes n).map fun a => ⟨a.1, a.2⟩ := by
  have hkeep : ((writtenAttributes n).map fun a => (⟨a.1, a.2⟩ : Entry)).filter
      (fun e => e.key ≠ "shape" && e.key ≠ "label") =
      (writtenAttributes n).map fun a => ⟨a.1, a.2⟩ := by
    rw [List.filter_eq_self]
    intro e he
    obtain ⟨a, ha, rfl⟩ := List.mem_map.1 he
    simp [ne_of_mem_writtenAttributes ha]
  rw [map_snd_nodeItems, List.filter_append, hkeep]
  cases shape? n.type <;> simp

/-- **The entries of a written node give the node**, attributes called `shape` or `label` apart. -/
theorem node_nodeItems (n : Node) {k : Key} (hk : k.name = n.id) :
    node ⟨k, [], some n.label, (nodeItems n).map Prod.snd⟩ = n.stripped := by
  have hpairs : (writtenAttributes n).map ((fun e : Entry => (e.key, e.value)) ∘
      fun a => ⟨a.1, a.2⟩) = writtenAttributes n := List.map_id _
  rw [node, Declaration.entry?, find?_shape_nodeItems, filter_nodeItems]
  simp only [Declaration.label?, Node.withAttributes, Node.stripped, hk, List.map_map]
  rw [← Dictionary.insertAll_entries (n.attributes.filter _), hpairs]
  cases htype : shape? n.type with
  | none =>
    rw [shape?_eq_none.1 htype]
    rfl
  | some s =>
    simp only [ofShape?_shape? htype]
    rfl

/-- The style of an edge gives its type back. -/
theorem edgeType_styleItems (e : Edge) : edgeType ((styleItems e).map Prod.snd) = e.type := by
  rw [edgeType, styleItems]
  cases e.type <;> decide

/-- No style is called `label`. -/
theorem label?_styleItems (e : Edge) (k : Key) (links : List (Bool × Key)) :
    (⟨k, links, e.label, (styleItems e).map Prod.snd⟩ : Declaration).label? = e.label := by
  unfold Declaration.label?
  cases e.label with
  | some label => rfl
  | none =>
    simp only [Declaration.entry?, styleItems]
    cases e.type <;> decide

/-! ## What lines say -/

/-- The reader of lines. -/
def Says (text : List Char) (fact : Fact) : Prop :=
  ∀ (d : Draft) (s : Statement), s.text = text →
    ∃ d', readStatement d s = d' ∧ Draft.Gains fact d d'

/-- A line that starts with a key is read as its reader reads it. -/
theorem readStatement_eq {text name rest : List Char} {id : String} {quoted : Bool → Prop}
    (htext : text = name ++ rest) (hname : SpellsKey name id quoted) {P : Declaration → Prop}
    (hread : Reads declaration text P []) {s : Statement} (hs : s.text = text) (d : Draft) :
    ∃ decl, P decl ∧ (decl.links = [] → readStatement d s = addShape d s decl) ∧
      (decl.links ≠ [] → readStatement d s =
        connectAll d decl.label? (edgeType decl.entries) decl.first decl.links) := by
  obtain ⟨decl, hok, hP⟩ := Statement.read_of_reads (s := s) (by rw [hs]; exact hread)
    (List.forall_mem_nil _)
  have hparen : ['('].isPrefixOf s.text = false := by
    rw [hs, htext]
    exact hname.starts.isPrefixOf_eq_false rest (by decide) (by decide)
  refine ⟨decl, hP, fun hlinks => ?_, fun hlinks => ?_⟩
  · rw [readStatement, hparen]
    simp only [Bool.false_eq_true, if_false, hok, hlinks]
  · obtain ⟨link, links, hcons⟩ := List.exists_cons_of_ne_nil hlinks
    rw [readStatement, hparen]
    simp only [Bool.false_eq_true, if_false, hok, hcons]

/-- A key that is quoted or ordinary names no container. -/
theorem isContainerPath_eq_false {k : Key} (hk : k.quoted = true ∨ IsOrdinary k.name) :
    isContainerPath k = false := by
  unfold isContainerPath
  rcases hk with h | h
  · rw [h]
    rfl
  · have hdot : k.name.toList.contains '.' = false := by
      rw [Bool.eq_false_iff, ne_eq, List.contains_iff_mem]
      exact h.2
    rw [hdot, Bool.and_false]

/-- The keys with a meaning of their own are written in lower case. -/
theorem toLower_of_mem_specialKeys : ∀ word ∈ specialKeys, word.toLower = word := by
  have hlower : ∀ word ∈ specialKeys, word.toList.map Char.toLower = word.toList := by decide
  intro word hmem
  rw [← String.toList_inj, String.toLower, String.toList_map]
  exact hlower word hmem

/-- A key that is quoted or ordinary means nothing of its own. -/
theorem not_mem_specialKeys {k : Key} (hk : k.quoted = true ∨ IsOrdinary k.name) :
    (if k.quoted then "" else k.name.toLower) ∉ specialKeys := by
  split
  · decide
  · next hquoted =>
    obtain ⟨hspecial, -⟩ := hk.resolve_left hquoted
    intro hmem
    have hno := hspecial _ hmem
    have hlower := toLower_of_mem_specialKeys _ hmem
    rw [← String.toList_inj, String.toLower, String.toList_map, String.toLower,
      String.toList_map] at hlower
    rw [sameLetters, lower, String.toLower, String.toList_map, hlower, lower] at hno
    simp at hno

/-- **The line of a node declares the node.** -/
theorem says_nodeLine (n : Node) : Says (nodeLine n) (.node n.stripped) := by
  intro d s hs
  have hkey := spellsKey_nodeKey n.id
  have hread := reads_declaration_shape hkey (Closes.colon (reads_body_label
    (spellsEntry_nodeItems n) n.label))
  rw [← nodeLine_eq] at hread
  obtain ⟨decl, ⟨k, ⟨hname, hquoted⟩, rfl⟩, hstep, -⟩ :=
    readStatement_eq (nodeLine_eq n) hkey hread hs d
  refine ⟨d.declare n.stripped k.span, ?_, .node d n.stripped k.span⟩
  rw [← hname] at hquoted
  -- the key is not that of a title, a direction or another special entry
  have hspecial := not_mem_specialKeys hquoted
  simp only [specialKeys, List.mem_cons, not_or] at hspecial
  rw [hstep rfl]
  simp only [addShape, hspecial.1, hspecial.2.1, decide_false, Bool.false_and, Bool.false_eq_true,
    if_false, List.contains_iff_mem, hspecial.2.2, isContainerPath_eq_false hquoted,
    node_nodeItems n hname]

/-- **The line of an edge adds the edge.** -/
theorem says_edgeLine (e : Edge) : Says (edgeLine e) (.edge e) := by
  intro d s hs
  have hkey := spellsKey_nodeKey e.source
  have hread := reads_declaration_connection hkey (spellsKey_nodeKey e.target) (closes_edgeTail e)
  rw [← edgeLine_eq] at hread
  obtain ⟨decl, ⟨k, k', ⟨hname, hquoted⟩, ⟨hname', hquoted'⟩, rfl⟩, -, hstep⟩ :=
    readStatement_eq (edgeLine_eq e) hkey hread hs d
  refine ⟨d.connect e k.span k'.span, ?_, .edge d e k.span k'.span⟩
  rw [← hname] at hquoted
  rw [← hname'] at hquoted'
  rw [hstep (List.cons_ne_nil _ _)]
  simp only [connectAll, isContainerPath_eq_false hquoted, isContainerPath_eq_false hquoted',
    Bool.false_eq_true, if_false, label?_styleItems, edgeType_styleItems, hname, hname']

/-- A bare word as a key. -/
theorem spellsKey_word (name : String) (hne : name.toList ≠ [])
    (h : ∀ c ∈ name.toList, isWordChar c = true) :
    SpellsKey name.toList name fun quoted => quoted = false := by
  have hdash : NoDoubleDash name.toList := by
    rintro ⟨a, b, hab⟩
    have hc := h '-' (by rw [hab]; simp)
    revert hc
    decide
  have hkey : SpellsKey name.toList (String.ofList name.toList) fun quoted => quoted = false :=
    spellsKey_bare hne (fun c hc => isKeyChar_of_isWordChar (h c hc)) hdash rfl
  rwa [String.ofList_toList] at hkey

/-- The name of a direction is a bare value. -/
theorem spellsValue_directionName (direction : Direction) :
    SpellsValue (directionName direction).toList (directionName direction) := by
  refine spellsValue_bare _ ?_ ?_ <;> cases direction <;> decide

/-- The line of the direction sets the direction. -/
theorem says_direction (direction : Direction) :
    Says ("direction: ".toList ++ (directionName direction).toList) (.direction direction) := by
  intro d s hs
  have hkey := spellsKey_word "direction" (by decide) (by decide)
  have hread := reads_declaration_shape hkey (Closes.colon (reads_body_value
    (spellsValue_directionName direction)))
  obtain ⟨decl, ⟨k, ⟨hname, hquoted⟩, rfl⟩, hstep, -⟩ := readStatement_eq rfl hkey hread hs d
  have hknown : ofDirection? (directionName direction) = some direction := by
    cases direction <;> decide
  refine ⟨d.setDirection direction, ?_, .direction d direction⟩
  rw [hstep rfl]
  have hlower := toLower_of_mem_specialKeys "direction" (by decide)
  simp [addShape, hquoted, hname, hlower, hknown]

/-- The written entries of the title, each with what it says. -/
def titleItems : List (List Char × Entry) :=
  [("near: top-center".toList, ⟨"near", "top-center"⟩), ("shape: text".toList, ⟨"shape", "text"⟩)]

/-- The entries of the title are spelled out. -/
theorem spellsEntry_titleItems : ∀ p ∈ titleItems, SpellsEntry p.1 p.2 := by
  intro p hp
  rw [titleItems, List.mem_cons, List.mem_singleton] at hp
  rcases hp with rfl | rfl
  · exact spellsEntry_bare "near" "top-center" (by decide) (by decide)
  · exact spellsEntry_bare "shape" "text" (by decide) (by decide)

/-- The line of a title. -/
def titleLine (title : String) : List Char :=
  "title".toList ++ (':' :: ' ' :: (encode title.toList ++ map (titleItems.map Prod.fst)))

/-- The line of the title sets the title. -/
theorem says_titleLine (title : String) : Says (titleLine title) (.title title) := by
  intro d s hs
  have hkey := spellsKey_word "title" (by decide) (by decide)
  have hread := reads_declaration_shape hkey (Closes.colon (reads_body_label
    spellsEntry_titleItems title))
  obtain ⟨decl, ⟨k, ⟨hname, hquoted⟩, rfl⟩, hstep, -⟩ := readStatement_eq rfl hkey hread hs d
  refine ⟨d.setTitle title, ?_, .title d title⟩
  rw [hstep rfl]
  have hlower := toLower_of_mem_specialKeys "title" (by decide)
  simp [addShape, hquoted, hname, hlower, titleItems, Declaration.entry?, Declaration.label?]

/-! ## The written lines -/

/-- The lines of a diagram, each with what it says. -/
def said (d : Diagram) (direction : Direction) : List (List Char × Fact) :=
  [("direction: ".toList ++ (directionName direction).toList, .direction direction)] ++
    (d.title?.toList.map fun title => (titleLine title, .title title)) ++
    d.nodes.map (fun n => (nodeLine n, .node n.stripped)) ++
    d.edges.map fun e => (edgeLine e, .edge e)

/-- What is said is said by the lines that are written, in this order. -/
theorem map_fst_said (d : Diagram) (direction : Direction) :
    (said d direction).map Prod.fst = lines d direction := by
  have htitle : titleLines d.title? = d.title?.toList.map titleLine := by
    cases d.title? <;> rfl
  rw [said, lines, htitle]
  simp [Function.comp_def]

/-- An edge is one statement. -/
theorem isStatement_edgeLine (e : Edge) : conventions.IsStatement (edgeLine e) := by
  have hends := (spellsKey_nodeKey e.source).isStatement.append " -> ".toList (by decide)
    (spellsKey_nodeKey e.target).isStatement
  have hitems := spellsEntry_styleItems e
  rw [edgeLine_eq, edgeTail]
  cases e.label with
  | some label =>
    have hlabel := hends.append [':', ' '] (by decide)
      (Conventions.isStatement_encode rfl label.toList)
    simpa using isStatement_append_map hlabel hitems
  | none =>
    cases hstyle : styleItems e with
    | nil => simpa using hends
    | cons p rest =>
      rw [hstyle] at hitems
      have hcolon : conventions.IsStatement [':'] :=
        Conventions.isStatement_of_plain (List.cons_ne_nil _ _) (by decide)
      simpa using isStatement_append_map (hends.append [] (List.forall_mem_nil _) hcolon) hitems

/-- **Every written line says its fact.** -/
theorem says_of_mem_said {d : Diagram} {direction : Direction} :
    ∀ p ∈ said d direction, conventions.IsStatement p.1 ∧ Says p.1 p.2 := by
  intro p hp
  rw [said, List.mem_append, List.mem_append, List.mem_append, List.mem_singleton, List.mem_map,
    List.mem_map, List.mem_map] at hp
  rcases hp with ((rfl | ⟨title, -, rfl⟩) | ⟨n, -, rfl⟩) | ⟨e, -, rfl⟩
  · refine ⟨?_, says_direction direction⟩
    exact (spellsKey_word "direction" (by decide) (by decide)).isStatement.append [':', ' ']
      (by decide) (spellsValue_directionName direction).isStatement
  · refine ⟨?_, says_titleLine title⟩
    have hlabel := (spellsKey_word "title" (by decide) (by decide)).isStatement.append [':', ' ']
      (by decide) (Conventions.isStatement_encode rfl title.toList)
    unfold titleLine
    simpa using isStatement_append_map hlabel spellsEntry_titleItems
  · refine ⟨?_, says_nodeLine n⟩
    have hlabel := (spellsKey_nodeKey n.id).isStatement.append [':', ' '] (by decide)
      (Conventions.isStatement_encode rfl n.label.toList)
    rw [nodeLine_eq]
    simpa using isStatement_append_map hlabel (spellsEntry_nodeItems n)
  · exact ⟨isStatement_edgeLine e, says_edgeLine e⟩

/-- **The draft of a written source gains what was written.** -/
theorem draft_eq (d : Diagram) (direction : Direction) :
    ∃ draft, D2.draft (write d direction).toList = .ok draft ∧
      Draft.GainsAll ((said d direction).map Prod.snd) {} draft := by
  have hall : ∀ line ∈ lines d direction, conventions.IsStatement line := by
    intro line hline
    rw [← map_fst_said] at hline
    obtain ⟨p, hp, rfl⟩ := List.mem_map.1 hline
    exact (says_of_mem_said p hp).1
  obtain ⟨hvisible, found, hfound, htexts⟩ := Conventions.statements_unlines tidy hall 0
  obtain ⟨draft, hfold, hgains⟩ := Draft.gainsAll_foldl (fun d => d) readStatement
    (fun p hp d s hs => (says_of_mem_said p hp).2 d s hs)
    (htexts.trans (map_fst_said d direction).symm) {}
  refine ⟨draft, ?_, hgains⟩
  rw [write, String.toList_ofList, ← hfold]
  simp only [D2.draft, bind, Except.bind, hvisible, hfound]
  rfl

/-! ## The round trip -/

/-- The lines describe the diagram. -/
theorem describes_said (d : Diagram) (direction : Direction) :
    Fact.Describes ((said d direction).map Prod.snd) d.title? direction (d.nodes.map Node.stripped)
      d.edges [] := by
  have hhead : Fact.Describes ([Fact.direction direction] ++ d.title?.toList.map Fact.title)
      d.title? direction [] [] [] := by
    cases d.title? <;> exact ⟨rfl, rfl, rfl, rfl, rfl⟩
  have h := hhead.append (d.nodes.map Node.stripped) d.edges []
  unfold said
  simpa [Function.comp_def] using h

/-- **The D2 round trip.** Every valid diagram is read back from its D2 source with its nodes, but for
attributes called `shape` or `label`, its edges, its title and the direction it was written in. -/
theorem d2_read_write {d : Diagram} (hvalid : d.validate = .ok ())
    (hids : ∀ n ∈ d.nodes, n.id ≠ "") (direction : Direction) :
    ∃ e, read (write d direction) = .ok e ∧ e.nodes = d.nodes.map Node.stripped ∧
      e.edges = d.edges ∧ e.title? = d.title? ∧
      e.metadata.get? Diagram.directionKey = some direction.code := by
  obtain ⟨draft, hdraft, hgains⟩ := draft_eq d direction
  have hmap : (d.nodes.map Node.stripped).map Node.id = d.ids := List.map_map
  obtain ⟨e, hresolve, hnodes, hrest⟩ :=
    Draft.holds_empty.resolve_gainsAll hgains (describes_said d direction)
      (by rw [hmap]; exact d.nodup) (List.forall_mem_map.2 hids)
      (by rw [hmap]; exact Diagram.validate_eq_ok_iff.1 hvalid) (List.forall_mem_nil _)
      (write d direction).toList
  refine ⟨e, by rw [read, hdraft]; exact hresolve, ?_, hrest⟩
  rw [hnodes]
  exact List.map_id _

/-- A diagram whose ids, labels and attributes look like D2 syntax. -/
def tangled : Diagram := .of
  [{ id := "title", label := "say \"hi\"\n\x7d # no comment", type := .decision,
      attributes := ⟨[("shape", "lost"), ("style.fill", "a;b"), ("--", ""), ("", "\x7d")], by decide⟩ },
    { id := "a.b -> c", label := "", type := .finish },
    { id := "größe", label := "# \\" }]
  [{ source := "title", target := "a.b -> c", label := some "", type := .conditional },
    { source := "größe", target := "größe", type := .loopBack },
    { source := "title", target := "a.b -> c", label := some "label: \x7b" }]
  ⟨[("title", "direction: up")], by decide⟩ (by decide)

theorem d2_read_write_tangled :
    tangled.validate = .ok () ∧ (∀ n ∈ tangled.nodes, n.id ≠ "") ∧
      ∃ e, read (write tangled .bottomUp) = .ok e ∧ e.nodes = tangled.nodes.map Node.stripped ∧
        e.edges = tangled.edges ∧ e.title? = tangled.title? ∧
        e.metadata.get? Diagram.directionKey = some Direction.bottomUp.code :=
  ⟨by decide, by decide, d2_read_write (by decide) (by decide) .bottomUp⟩

end Flowchart.D2
