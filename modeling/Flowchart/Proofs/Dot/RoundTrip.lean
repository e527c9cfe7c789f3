import Flowchart.Proofs.Dot.Reading
import Flowchart.Proofs.Source.Facts

/-!
# DOT is read as it was written

Every statement that is written says one `Fact`: the statements of title and direction, one for each
node and one for each edge. The reader gains these facts one after the other, so that a diagram is
read back from its DOT source but for one thing. **The label `\N` stands for the id of its node**, so
a node with this label comes back with its id for a label.
-/

namespace Flowchart.Dot

open Conventions (Even)
open Reader (Reads Declines)
open Text (isBlank isWordChar sameLetters)
open Text.Quoted (encode)

/-! ## Attributes of nodes and edges -/

/-- The written attributes of a node, each with what it says. -/
def nodeItems (n : Node) : List (List Char × Attribute) :=
  [(labelAttribute n.label, ("label", n.label))] ++
    ((shape? n.type).toList.map fun s => ("shape=".toList ++ s.toList, ("shape", s))) ++
    (otherAttributes n).map fun p => (writtenId p.1 ++ '=' :: encode p.2.toList, p)

/-- The written attributes of an edge, each with what it says. -/
def edgeItems (e : Edge) : List (List Char × Attribute) :=
  (e.label.toList.map fun l => (labelAttribute l, ("label", l))) ++
    (style? e.type).toList.map fun s => ("style=".toList ++ s.toList, ("style", s))

/-- A label is written as an attribute, quoted and escaped. -/
theorem spellsAttribute_label (label : String) :
    SpellsAttribute (labelAttribute label) ("label", label) :=
  ⟨"label".toList, encode label.toList, rfl, spells_writtenId "label", spells_encode label⟩

/-- A bare word as the value of an attribute whose name is a bare word. -/
theorem spellsAttribute_bare (name value : String) (hname : isBareId name.toList = true)
    (hvalue : isBareId value.toList = true) :
    SpellsAttribute ((name ++ "=").toList ++ value.toList) (name, value) := by
  refine ⟨name.toList, value.toList, by simp, ?_, ?_⟩
  · have h := spells_writtenId name
    rwa [writtenId, if_pos hname] at h
  · have h := spells_writtenId value
    rwa [writtenId, if_pos hvalue] at h

/-- Every item of a node spells an attribute. -/
theorem spellsAttribute_nodeItems (n : Node) :
    ∀ p ∈ nodeItems n, SpellsAttribute p.1 p.2 := by
  intro p hp
  rw [nodeItems, List.mem_append, List.mem_append, List.mem_singleton, List.mem_map,
    List.mem_map] at hp
  rcases hp with (rfl | ⟨s, hs, rfl⟩) | ⟨a, -, rfl⟩
  · exact spellsAttribute_label n.label
  · refine spellsAttribute_bare "shape" s (by decide) ?_
    rw [Option.mem_toList] at hs
    cases htype : n.type <;> rw [htype] at hs <;> cases hs <;> decide
  · exact ⟨_, _, rfl, spells_writtenId a.1, spells_encode a.2⟩

/-- Every item of an edge spells an attribute. -/
theorem spellsAttribute_edgeItems (e : Edge) :
    ∀ p ∈ edgeItems e, SpellsAttribute p.1 p.2 := by
  intro p hp
  rw [edgeItems, List.mem_append, List.mem_map, List.mem_map] at hp
  rcases hp with ⟨l, -, rfl⟩ | ⟨s, hs, rfl⟩
  · exact spellsAttribute_label l
  · refine spellsAttribute_bare "style" s (by decide) ?_
    rw [Option.mem_toList] at hs
    cases htype : e.type <;> rw [htype] at hs <;> cases hs <;> decide

/-- A node is its id and a list of items. -/
theorem nodeStatement_eq (n : Node) :
    nodeStatement n = writtenId n.id ++ attributePart (nodeItems n) := by
  rw [nodeStatement, attributePart, if_neg (by simp [nodeItems])]
  simp [nodeItems, nodeAttributes, Function.comp_def]

/-- An edge is two ids with an arrow between them and a list of items. -/
theorem edgeStatement_eq (e : Edge) :
    edgeStatement e =
      writtenId e.source ++
        (" -> ".toList ++ (writtenId e.target ++ attributePart (edgeItems e))) := by
  have hmap : edgeAttributes e = (edgeItems e).map Prod.fst := by
    simp [edgeItems, edgeAttributes, Function.comp_def]
  rw [edgeStatement, attributePart, hmap]
  simp [List.append_assoc]

/-! ## What attributes give -/

/-- Attributes with other names do not change the value of a name. -/
theorem valueOf?_append {attributes others : List Attribute} {name : String}
    (h : ∀ a ∈ others, a.1 ≠ name) :
    valueOf? (attributes ++ others) name = valueOf? attributes name := by
  have hnone : (others.reverse.find? fun a => a.1 = name) = none := by
    rw [List.find?_eq_none]
    intro a ha
    simpa using h a (List.mem_reverse.1 ha)
  rw [valueOf?, valueOf?, List.reverse_append, List.find?_append, hnone, Option.none_or]

/-- **The shape of a type stands for that type.** -/
theorem ofShape?_shape? {t : NodeType} {s : String} (h : shape? t = some s) :
    ofShape? s = some t := by
  cases t <;> cases h <;> decide

/-- Only a node without a type is written without a shape. -/
theorem shape?_eq_none {t : NodeType} : shape? t = none ↔ t = .unspecified := by
  cases t <;> decide

/-- A node as it is read back: the label `\N` stands for the id, and attributes called `shape` or
`label` are lost. -/
def readBack (n : Node) : Node :=
  { n.stripped with label := if n.label = "\\N" then n.id else n.label }

/-- A node has its label, its shape if there is one, and then its other attributes. -/
theorem map_snd_nodeItems (n : Node) :
    (nodeItems n).map Prod.snd =
      (("label", n.label) :: (shape? n.type).toList.map fun s => ("shape", s)) ++
        otherAttributes n := by
  simp [nodeItems, Function.comp_def]

/-- The other attributes never set shape or label once more. -/
theorem ne_of_mem_otherAttributes {n : Node} {a : Attribute} (h : a ∈ otherAttributes n) :
    a.1 ≠ "shape" ∧ a.1 ≠ "label" := by
  simpa [otherAttributes] using (List.mem_filter.1 h).2

/-- So the label that is found is that of the node. -/
theorem valueOf?_label_nodeItems (n : Node) :
    valueOf? ((nodeItems n).map Prod.snd) "label" = some n.label := by
  rw [map_snd_nodeItems, valueOf?_append fun a ha => (ne_of_mem_otherAttributes ha).2]
  cases shape? n.type <;> simp [valueOf?]

/-- The shape that is found is that of the type, if it has one. -/
theorem valueOf?_shape_nodeItems (n : Node) :
    valueOf? ((nodeItems n).map Prod.snd) "shape" = shape? n.type := by
  rw [map_snd_nodeItems, valueOf?_append fun a ha => (ne_of_mem_otherAttributes ha).1]
  cases shape? n.type <;> simp [valueOf?]

/-- Behind label and shape stand the other attributes. -/
theorem filter_nodeItems (n : Node) :
    ((nodeItems n).map Prod.snd).filter (fun a => a.1 ≠ "shape" && a.1 ≠ "label") =
      otherAttributes n := by
  have hkeep : (otherAttributes n).filter (fun a => a.1 ≠ "shape" && a.1 ≠ "label") =
      otherAttributes n :=
    List.filter_eq_self.2 fun a ha => by simp [ne_of_mem_otherAttributes ha]
  rw [map_snd_nodeItems, List.filter_append, hkeep]
  cases shape? n.type <;> simp

/-- **The attributes of a written node give the node**, the label `\N` apart. -/
theorem node_nodeItems (n : Node) :
    Progress.node n.id ((nodeItems n).map Prod.snd) = readBack n := by
  have hlabels : (((some n.label).filter (· ≠ "\\N")).getD n.id) =
      if n.label = "\\N" then n.id else n.label := by
    by_cases h : n.label = "\\N" <;> simp [Option.filter, h]
  rw [Progress.node, valueOf?_label_nodeItems, valueOf?_shape_nodeItems, filter_nodeItems, hlabels,
    Node.withAttributes]
  simp only [readBack, Node.stripped]
  rw [← Dictionary.insertAll_entries (n.attributes.filter _)]
  cases htype : shape? n.type with
  | none =>
    rw [shape?_eq_none.1 htype]
    rfl
  | some s =>
    simp only [ofShape?_shape? htype]
    rfl

/-- The attributes of a written edge give its type. -/
theorem edgeType_edgeItems (e : Edge) :
    Progress.edgeType ((edgeItems e).map Prod.snd) = e.type := by
  have hstyle : valueOf? ((edgeItems e).map Prod.snd) "style" = style? e.type := by
    cases hlabel : e.label <;> cases htype : style? e.type <;>
      simp [edgeItems, hlabel, htype, valueOf?]
  rw [Progress.edgeType, hstyle]
  cases e.type <;> decide

/-- The attributes of a written edge give its label. -/
theorem label_edgeItems (e : Edge) :
    valueOf? ((edgeItems e).map Prod.snd) "label" = e.label := by
  cases hlabel : e.label <;> cases htype : style? e.type <;>
    simp [edgeItems, hlabel, htype, valueOf?]

/-! ## What statements say -/

/-- The reader of statements, where no defaults are in force. -/
def Says (text : List Char) (fact : Fact) : Prop :=
  ∀ (d : Draft) (s : Statement), s.text = text →
    ∃ d', Progress.readStatement { draft := d } s = { draft := d' } ∧ Draft.Gains fact d d'

/-- A statement that starts with a written id is read as its reader reads it. -/
theorem readStatement_eq {text rest : List Char} {id : String} (htext : text = writtenId id ++ rest)
    (hrest : ∀ c ∈ rest.head?, isIdChar c = false) {P : BodyStatement → Prop}
    (hread : Reads bodyStatement text P []) {s : Statement} (hs : s.text = text) (p : Progress) :
    ∃ statement, p.readStatement s = p.add s statement ∧ P statement := by
  obtain ⟨statement, hok, hP⟩ := Statement.read_of_reads (s := s) (by rw [hs]; exact hread)
    (List.forall_mem_nil _)
  refine ⟨statement, ?_, hP⟩
  have hsubgraph : sameLetters "subgraph".toList (s.text.takeWhile isWordChar) = false := by
    rw [hs, htext]
    exact sameLetters_writtenId id hrest "subgraph" (by decide)
  have hbrace : ['{'].isPrefixOf s.text = false := by
    rw [hs, htext]
    exact (spells_writtenId id).starts.isPrefixOf_eq_false rest (by decide) (by decide)
  rw [Progress.readStatement, hsubgraph, hbrace]
  simp only [Bool.or_self, Bool.false_eq_true, if_false, hok]

/-- **The statement of a node declares the node that is read back.** -/
theorem says_nodeStatement (n : Node) : Says (nodeStatement n) (.node (readBack n)) := by
  intro d s hs
  have hid := spells_writtenId n.id
  have hhead := isIdChar_attributePart (nodeItems n)
  have hread : Reads bodyStatement (nodeStatement n)
      (fun statement => ∃ first, first.value = n.id ∧
        statement = .chain first [] ((nodeItems n).map Prod.snd)) [] := by
    rw [nodeStatement_eq, bodyStatement]
    -- defaults and assignments are tried before chains
    refine Reads.or_right (declines_defaults n.id hhead) (Reads.or_right ?_ ?_)
    · exact declines_assignment hid hhead (Text.head?_cons (by decide) _)
    · exact reads_chain_node hid (spellsAttribute_nodeItems n)
  obtain ⟨statement, hstep, first, hfirst, rfl⟩ :=
    readStatement_eq (nodeStatement_eq n) hhead hread hs { draft := d }
  refine ⟨d.declare (readBack n) first.span, ?_, .node d (readBack n) first.span⟩
  rw [hstep, Progress.add, hfirst]
  simp only [List.nil_append, node_nodeItems]

/-- **The statement of an edge adds the edge.** -/
theorem says_edgeStatement (e : Edge) : Says (edgeStatement e) (.edge e) := by
  intro d s hs
  have hid := spells_writtenId e.source
  have hhead : ∀ c ∈ (" -> ".toList ++ (writtenId e.target ++
      attributePart (edgeItems e))).head?, isIdChar c = false := Text.head?_cons (by decide) _
  have hread : Reads bodyStatement (edgeStatement e)
      (fun statement => ∃ first second, first.value = e.source ∧ second.value = e.target ∧
        statement = .chain first [second] ((edgeItems e).map Prod.snd)) [] := by
    rw [edgeStatement_eq, bodyStatement]
    refine Reads.or_right (declines_defaults e.source hhead) (Reads.or_right ?_ ?_)
    · exact declines_assignment hid hhead (Text.head?_cons (by decide) _)
    · exact reads_chain_edge hid (spells_writtenId e.target) (spellsAttribute_edgeItems e)
  obtain ⟨statement, hstep, first, second, hfirst, hsecond, rfl⟩ :=
    readStatement_eq (edgeStatement_eq e) hhead hread hs { draft := d }
  refine ⟨d.connect e first.span second.span, ?_, .edge d e first.span second.span⟩
  rw [hstep]
  show ({ draft := Progress.connectAll d ([] ++ (edgeItems e).map Prod.snd) first [second] } :
    Progress) = _
  simp only [List.nil_append, Progress.connectAll, edgeType_edgeItems, label_edgeItems, hfirst,
    hsecond]

/-- An assignment sets its attribute of the graph. -/
theorem readStatement_assignment (name : String) {text value : List Char} {v : String}
    (htext : text = writtenId name ++ '=' :: value) (hvalue : Spells value v) {s : Statement}
    (hs : s.text = text) (p : Progress) : p.readStatement s = p.setGraph s [(name, v)] := by
  have hhead : ∀ c ∈ ('=' :: value).head?, isIdChar c = false := Text.head?_cons (by decide) _
  have hread : Reads bodyStatement text (· = .assignment name v) [] := by
    rw [htext, bodyStatement]
    refine Reads.or_right (declines_defaults name hhead) (Reads.or_left ?_)
    exact reads_assignment (spells_writtenId name) hvalue
  obtain ⟨statement, hstep, rfl⟩ := readStatement_eq htext hhead hread hs p
  rw [hstep, Progress.add]

/-- The title is written as the label of the graph. -/
theorem says_label (title : String) : Says (labelAttribute title) (.title title) := by
  intro d s hs
  refine ⟨d.setTitle title, ?_, .title d title⟩
  rw [readStatement_assignment "label" rfl (spells_encode title) hs]
  rfl

/-- The place of the title does not matter to the reader. -/
theorem says_labelloc : Says "labelloc=\"t\"".toList .nothing := by
  intro d s hs
  refine ⟨d, ?_, .nothing d⟩
  rw [readStatement_assignment "labelloc" rfl (spells_encode "t") hs]
  rfl

/-- The direction is written as the rank direction. -/
theorem says_rankdir (direction : Direction) :
    Says ("rankdir=".toList ++ (rankdir direction).toList) (.direction direction) := by
  intro d s hs
  have hvalue : Spells (rankdir direction).toList (rankdir direction) := by
    have h := spells_writtenId (rankdir direction)
    rwa [writtenId, if_pos (by cases direction <;> decide)] at h
  have hknown : ofRankdir? (rankdir direction) = some direction := by
    cases direction <;> decide
  refine ⟨d.setDirection direction, ?_, .direction d direction⟩
  rw [readStatement_assignment "rankdir" rfl hvalue hs]
  simp [Progress.setGraph, hknown]

/-! ## The written statements -/

/-- The statements of a diagram, each with what it says. -/
def said (d : Diagram) (direction : Direction) : List (List Char × Fact) :=
  (d.title?.toList.flatMap fun title =>
    [(labelAttribute title, .title title), ("labelloc=\"t\"".toList, .nothing)]) ++
    [("rankdir=".toList ++ (rankdir direction).toList, .direction direction)] ++
    d.nodes.map (fun n => (nodeStatement n, .node (readBack n))) ++
    d.edges.map fun e => (edgeStatement e, .edge e)

/-- What is said is said by the statements that are written, in this order. -/
theorem map_fst_said (d : Diagram) (direction : Direction) :
    (said d direction).map Prod.fst = statements d direction := by
  cases htitle : d.title? <;>
    simp [said, statements, titleStatements, htitle, Function.comp_def]

/-- An edge is one statement. -/
theorem isStatement_edgeStatement (e : Edge) : conventions.IsStatement (edgeStatement e) := by
  have hends := (spells_writtenId e.source).isStatement.append " -> ".toList (by decide)
    (spells_writtenId e.target).isStatement
  have h := isStatement_append_attributePart hends (spellsAttribute_edgeItems e)
  rw [edgeStatement_eq]
  simpa only [List.append_assoc] using h

/-- **Every written statement says its fact.** -/
theorem says_of_mem_said {d : Diagram} {direction : Direction} :
    ∀ p ∈ said d direction, conventions.IsStatement p.1 ∧ Says p.1 p.2 := by
  intro p hp
  rw [said, List.mem_append, List.mem_append, List.mem_append, List.mem_flatMap,
    List.mem_singleton, List.mem_map, List.mem_map] at hp
  rcases hp with ((⟨title, -, htitle⟩ | rfl) | ⟨n, -, rfl⟩) | ⟨e, -, rfl⟩
  · rw [List.mem_cons, List.mem_singleton] at htitle
    rcases htitle with rfl | rfl
    · exact ⟨(spellsAttribute_label title).isStatement, says_label title⟩
    · have hloc : SpellsAttribute "labelloc=\"t\"".toList ("labelloc", "t") :=
        ⟨_, _, rfl, spells_writtenId "labelloc", spells_encode "t"⟩
      exact ⟨hloc.isStatement, says_labelloc⟩
  · have hdir := spellsAttribute_bare "rankdir" (rankdir direction) (by decide)
      (by cases direction <;> decide)
    exact ⟨hdir.isStatement, says_rankdir direction⟩
  · refine ⟨?_, says_nodeStatement n⟩
    rw [nodeStatement_eq]
    exact isStatement_append_attributePart (spells_writtenId n.id).isStatement
      (spellsAttribute_nodeItems n)
  · exact ⟨isStatement_edgeStatement e, says_edgeStatement e⟩

/-! ## The graph around the statements -/

/-- The indented statements between the braces. -/
def bodyText (texts : List (List Char)) : List Char :=
  '\n' :: Text.unlines (texts.map fun s => List.replicate 4 ' ' ++ s ++ [';'])

/-- The header up to the opening brace. -/
def opening : List Char := "digraph G \x7b".toList

/-- A graph with statements between its braces. -/
def graphText (texts : List (List Char)) : List Char := opening ++ (bodyText texts ++ ['}'])

/-- The lines that are written are the text of the graph and a line feed. -/
theorem unlines_lines (d : Diagram) (direction : Direction) :
    Text.unlines (lines d direction) = graphText (statements d direction) ++ ['\n'] := by
  have hlines : lines d direction = [opening] ++
      ((statements d direction).map fun s => List.replicate 4 ' ' ++ s ++ [';']) ++ [['}']] := rfl
  rw [hlines, Text.unlines_append, Text.unlines_append]
  simp [graphText, bodyText]

variable {texts : List (List Char)}

/-- The pieces of the body: a statement ends at its semicolon, and the line behind it is blank. -/
def bodyPieces (texts : List (List Char)) : List (List Char × Char) :=
  ([], '\n') :: texts.flatMap fun s => [(List.replicate 4 ' ' ++ s, ';'), ([], '\n')]

/-- The body is made up of pieces that line feeds separate. -/
theorem bodyText_eq (texts : List (List Char)) :
    bodyText texts = Conventions.pieceText (bodyPieces texts) := by
  rw [bodyText, bodyPieces, Conventions.pieceText_cons, List.nil_append]
  induction texts with
  | nil => rfl
  | cons s rest ih =>
    rw [List.cons.injEq] at ih
    rw [List.map_cons, List.flatMap_cons, Text.unlines_cons, ih.2, List.cons_append,
      List.cons_append, List.nil_append, Conventions.pieceText_cons, Conventions.pieceText_cons]
    simp only [List.append_assoc, List.cons_append, List.nil_append]

/-- Statements make even pieces: each closes what it opens. -/
theorem evenPieces_bodyPieces (h : ∀ s ∈ texts, conventions.IsStatement s) :
    conventions.EvenPieces (bodyPieces texts) := by
  intro p hp
  rw [bodyPieces, List.mem_cons, List.mem_flatMap] at hp
  rcases hp with rfl | ⟨s, hs, hp⟩
  · exact ⟨.nil [], rfl⟩
  · rw [List.mem_cons, List.mem_singleton] at hp
    rcases hp with rfl | rfl
    · exact ⟨(Even.of_plain (by decide)).append ((h s hs).even []), rfl⟩
    · exact ⟨.nil [], rfl⟩

/-- The pieces that are not blank are the statements. -/
theorem filter_trim_bodyPieces (h : ∀ s ∈ texts, conventions.IsStatement s) :
    ((bodyPieces texts).map fun p => Text.trim p.1).filter (fun text => !text.isEmpty) = texts := by
  rw [bodyPieces, List.map_cons, List.filter_cons_of_neg (by decide)]
  induction texts with
  | nil => rfl
  | cons s rest ih =>
    have hs := h s List.mem_cons_self
    have htrim : Text.trim (List.replicate 4 ' ' ++ s) = s := hs.trim_indented (by decide)
    rw [List.flatMap_cons, List.map_append, List.filter_append,
      ih fun t ht => h t (List.mem_cons_of_mem s ht)]
    rw [List.map_cons, htrim, List.filter_cons_of_pos (by simp [hs.isEmpty_eq_false])]
    rfl

/-- The statements of the body are those that were written. -/
theorem statements_bodyText (h : ∀ s ∈ texts, conventions.IsStatement s) (base : Nat) :
    ∃ statements, conventions.statements base (bodyText texts) = .ok statements ∧
      statements.map Statement.text = texts := by
  obtain ⟨statements, hok, htexts⟩ :=
    (evenPieces_bodyPieces h).statements_eq tidy base
  exact ⟨statements, by rw [bodyText_eq, hok], htexts.trans (filter_trim_bodyPieces h)⟩

/-- Between braces the body is even: its separators stand where the closing brace is pending. -/
theorem even_bodyText (h : ∀ s ∈ texts, conventions.IsStatement s) {due : List Char}
    (hdue : due ≠ []) : Even conventions due (bodyText texts) due := by
  refine .separator rfl hdue ?_
  induction texts with
  | nil => exact .nil due
  | cons s rest ih =>
    rw [List.map_cons, Text.unlines_cons, List.append_assoc, List.append_assoc]
    refine (Even.of_plain (by decide)).append (((h s List.mem_cons_self).even due).append ?_)
    exact .separator rfl hdue (.separator rfl hdue
      (ih fun t ht => h t (List.mem_cons_of_mem s ht)))

/-- **The whole graph is one statement**, because its body is even and stands between braces. -/
theorem isStatement_graphText (h : ∀ s ∈ texts, conventions.IsStatement s) :
    conventions.IsStatement (graphText texts) where
  even due := by
    have hbody : Even conventions ('}' :: due) (bodyText texts) ('}' :: due) :=
      even_bodyText h (List.cons_ne_nil _ _)
    have hname : Even conventions due "digraph G ".toList due := Even.of_plain (by decide)
    exact hname.append (.opened rfl (hbody.append
      (.closed (by decide) (by decide) (.nil due))))
  first := ⟨'d', rfl, by decide⟩
  last := by
    rw [graphText, ← List.append_assoc]
    exact ⟨'}', by rw [List.getLast?_concat, Option.mem_def], by decide⟩

/-- The header is read up to the opening brace. -/
theorem reads_header (rest : List Char) :
    Reads header (opening ++ rest) (fun _ => True) rest := by
  have hstrict : Declines (do
      let _ ← Reader.keyword "strict"
      Reader.someBlanks) (opening ++ rest) :=
    (Reader.declines_keyword (Or.inr (by rfl))).bind
  have hkind : Reads (Reader.named "`digraph`"
      (Reader.or (Reader.keyword "digraph") (Reader.keyword "graph"))) (opening ++ rest)
      (· = "digraph".toList) (" G \x7b".toList ++ rest) := by
    have hread := Reader.reads_keyword "digraph" ⟨by decide, by decide⟩ ("G \x7b".toList ++ rest)
    exact Reads.named _ (Reads.or_left hread)
  have hname : Reads id ('G' :: ' ' :: '\x7b' :: rest) (· = "G") (' ' :: '\x7b' :: rest) :=
    (spells_writtenId "G").reads _ (Text.head?_cons (by decide) _)
  rw [header]
  refine hstrict.optional.andThen ?_
  refine Reads.position fun start => ?_
  refine hkind.andThen ?_
  rw [if_neg (by decide)]
  refine (Reader.reads_space (Text.head?_cons (by decide) _)).bind fun _ _ => ?_
  refine hname.optional.bind fun _ _ => ?_
  refine (Reader.reads_space (Text.head?_cons (by decide) _)).bind fun _ _ => ?_
  refine Reads.accept ?_
  exact Reads.pure trivial

/-- **What stands between the braces is the body.** -/
theorem graphBody_eq {graph : Statement} (hgraph : graph.text = graphText texts) :
    ∃ base, graphBody graph = .ok ⟨bodyText texts, base⟩ := by
  obtain ⟨_, pos, hheader, -⟩ := reads_header (bodyText texts ++ ['}']) graph.offset
  refine ⟨pos, ?_⟩
  rw [graphBody, Statement.cursor, hgraph, graphText, hheader]
  simp only [Text.breakAtLast?_append_singleton]
  rfl

/-- A source of one graph is read statement by statement. -/
theorem draft_of_graph {source visible : List Char} {graph body : Statement}
    {found : List Statement} (hvisible : conventions.hideComments 0 source = .ok visible)
    (hgraph : conventions.statements 0 visible = .ok [graph]) (hbody : graphBody graph = .ok body)
    (hfound : conventions.statements body.offset body.text = .ok found) :
    Dot.draft source = .ok (found.foldl Progress.readStatement {}).draft := by
  simp only [Dot.draft, bind, Except.bind, hvisible, hgraph, hbody, hfound]
  rfl

/-- **The draft of a written source gains what was written.** -/
theorem draft_eq (d : Diagram) (direction : Direction) :
    ∃ draft, Dot.draft (write d direction).toList = .ok draft ∧
      Draft.GainsAll ((said d direction).map Prod.snd) {} draft := by
  have hall : ∀ s ∈ statements d direction, conventions.IsStatement s := by
    intro s hs
    rw [← map_fst_said] at hs
    obtain ⟨p, hp, rfl⟩ := List.mem_map.1 hs
    exact (says_of_mem_said p hp).1
  have hgraph := isStatement_graphText hall
  have hsource : (write d direction).toList =
      Conventions.pieceText [(graphText (statements d direction), '\n')] := by
    rw [write, String.toList_ofList, unlines_lines, Conventions.pieceText_cons]
    rfl
  have hpieces : conventions.EvenPieces [(graphText (statements d direction), '\n')] := by
    intro p hp
    rw [List.mem_singleton.1 hp]
    exact ⟨hgraph.even [], rfl⟩
  -- the source is cut into one statement, the graph; its body is cut once more
  obtain ⟨graphs, hgraphs, htexts⟩ := hpieces.statements_eq tidy 0
  have htrim : Text.trim (graphText (statements d direction)) = graphText (statements d direction) :=
    hgraph.trim_indented (List.forall_mem_nil _)
  rw [List.map_singleton, htrim, List.filter_cons_of_pos (by simp [hgraph.isEmpty_eq_false]),
    List.filter_nil, List.map_eq_singleton_iff] at htexts
  obtain ⟨graph, rfl, hgraphText⟩ := htexts
  obtain ⟨base, hbody⟩ := graphBody_eq hgraphText
  obtain ⟨body, hstatements, hbodyTexts⟩ := statements_bodyText hall base
  obtain ⟨draft, hfold, hgains⟩ := Draft.gainsAll_foldl (fun d => ({ draft := d } : Progress))
    Progress.readStatement (fun p hp d s hs => (says_of_mem_said p hp).2 d s hs)
    (hbodyTexts.trans (map_fst_said d direction).symm) {}
  refine ⟨draft, ?_, hgains⟩
  rw [hsource, draft_of_graph (hpieces.hideComments_eq tidy 0) hgraphs hbody hstatements, hfold]

/-! ## The round trip -/

/-- The statements describe the diagram with its nodes as they are read back. -/
theorem describes_said (d : Diagram) (direction : Direction) :
    Fact.Describes ((said d direction).map Prod.snd) d.title? direction (d.nodes.map readBack)
      d.edges [] := by
  have hhead : Fact.Describes ((d.title?.toList.flatMap fun title =>
      [Fact.title title, Fact.nothing]) ++ [Fact.direction direction]) d.title? direction
      [] [] [] := by
    cases d.title? <;> exact ⟨rfl, rfl, rfl, rfl, rfl⟩
  have h := hhead.append (d.nodes.map readBack) d.edges []
  unfold said
  simpa [List.map_flatMap, Function.comp_def] using h

/-- **A DOT source gives back the diagram it was written for**, its nodes as they are read back. -/
theorem exists_read_write {d : Diagram} (hvalid : d.validate = .ok ())
    (hids : ∀ n ∈ d.nodes, n.id ≠ "") (direction : Direction) :
    ∃ e, read (write d direction) = .ok e ∧ e.nodes = d.nodes.map readBack ∧ e.edges = d.edges ∧
      e.title? = d.title? ∧ e.metadata.get? Diagram.directionKey = some direction.code := by
  obtain ⟨draft, hdraft, hgains⟩ := draft_eq d direction
  have hmap : (d.nodes.map readBack).map Node.id = d.ids := List.map_map
  obtain ⟨e, hresolve, hnodes, hrest⟩ :=
    Draft.holds_empty.resolve_gainsAll hgains (describes_said d direction)
      (by rw [hmap]; exact d.nodup) (List.forall_mem_map.2 hids)
      (by rw [hmap]; exact Diagram.validate_eq_ok_iff.1 hvalid) (List.forall_mem_nil _)
      (write d direction).toList
  refine ⟨e, by rw [read, hdraft]; exact hresolve, ?_, hrest⟩
  rw [hnodes]
  exact List.map_id _

/-- A node is read back unchanged, attributes called `shape` or `label` apart, unless its label is
`\N` and its id is not. -/
theorem readBack_eq_iff (n : Node) :
    readBack n = n.stripped ↔ (n.label = "\\N" → n.id = "\\N") := by
  by_cases h : n.label = "\\N"
  · rw [readBack, if_pos h]
    constructor
    · intro heq _
      rw [← h]
      exact congrArg Node.label heq
    · intro hid
      rw [hid h, ← h]
      rfl
  · rw [readBack, if_neg h]
    exact ⟨fun _ hlabel => absurd hlabel h, fun _ => rfl⟩

/-- **The DOT round trip.** Every valid diagram is read back from its DOT source with its edges, its
title and the direction it was written in. Its nodes come back as they were, attributes called
`shape` or `label` apart, **exactly if no other node than `\N` is labelled `\N`**. -/
theorem dot_read_write {d : Diagram} (hvalid : d.validate = .ok ())
    (hids : ∀ n ∈ d.nodes, n.id ≠ "") (direction : Direction) :
    ∃ e, read (write d direction) = .ok e ∧ e.nodes = d.nodes.map readBack ∧
      (e.nodes = d.nodes.map Node.stripped ↔ ∀ n ∈ d.nodes, n.label = "\\N" → n.id = "\\N") ∧
      e.edges = d.edges ∧ e.title? = d.title? ∧
      e.metadata.get? Diagram.directionKey = some direction.code := by
  obtain ⟨e, hread, hnodes, hrest⟩ := exists_read_write hvalid hids direction
  refine ⟨e, hread, hnodes, ?_, hrest⟩
  rw [hnodes, List.map_inj_left]
  exact forall₂_congr fun n _ => readBack_eq_iff n

/-- A diagram whose ids, labels and attributes look like DOT syntax. -/
def tangled : Diagram := .of
  [{ id := "node", label := "say \"hi\"\n\x7d // no comment", type := .decision,
      attributes := ⟨[("label", "lost"), ("fill color", "a]b;"), ("style", "")], by decide⟩ },
    { id := "a -> b", label := "", type := .finish },
    { id := "\\N", label := "\\N" }]
  [{ source := "node", target := "a -> b", label := some "", type := .conditional },
    { source := "a -> b", target := "a -> b", type := .loopBack },
    { source := "node", target := "a -> b", label := some "\\N" }]
  ⟨[("title", "# no \x7b title")], by decide⟩ (by decide)

theorem dot_read_write_tangled :
    tangled.validate = .ok () ∧ (∀ n ∈ tangled.nodes, n.id ≠ "") ∧
      ∃ e, read (write tangled .rightLeft) = .ok e ∧ e.nodes = tangled.nodes.map readBack ∧
        (e.nodes = tangled.nodes.map Node.stripped ↔
          ∀ n ∈ tangled.nodes, n.label = "\\N" → n.id = "\\N") ∧
        e.edges = tangled.edges ∧ e.title? = tangled.title? ∧
        e.metadata.get? Diagram.directionKey = some Direction.rightLeft.code :=
  ⟨by decide, by decide, dot_read_write (by decide) (by decide) .rightLeft⟩

/-- A diagram of one node `a` that is labelled `\N`. -/
def labelledByItsId : Diagram := .of
  [{ id := "a", label := "\\N" }]
  []
  .empty (by decide)

/-- The label `\N` comes back as the id `a`. -/
theorem dot_label_lost :
    labelledByItsId.validate = .ok () ∧ (∀ n ∈ labelledByItsId.nodes, n.id ≠ "") ∧
      ∃ e, read (write labelledByItsId .topDown) = .ok e ∧
        e.nodes ≠ labelledByItsId.nodes.map Node.stripped ∧ e.nodes.map Node.label = ["a"] := by
  refine ⟨by decide, by decide, ?_⟩
  obtain ⟨e, hread, hnodes, -⟩ := exists_read_write (d := labelledByItsId) (by decide) (by decide)
    .topDown
  refine ⟨e, hread, ?_, ?_⟩
  · rw [hnodes]
    decide
  · rw [hnodes]
    decide

end Flowchart.Dot
