import Flowchart.Proofs.Mermaid.Accepted
import Flowchart.Proofs.Mermaid.Lines
import Flowchart.Proofs.Mermaid.RoundTrip

/-!
# Attributes that break a Mermaid source

Attributes are written as they are, so the line that holds them may be read as anything. Since a
source is read line by line, the other lines do not suffer, and two things decide about the result:

* a statement that gives a node its style leaves nodes, edges and problems as they are;
* any other statement adds at least one of them (`size_lt_readStatement`).

So the source of a diagram comes back with as many nodes and edges **exactly if every line of
attributes, read by itself, only gives styles to nodes of the diagram** (`OnlyStyles`).
-/

namespace Flowchart.Mermaid

open Reader (Reads Declines Fails)
open Text (isBlank isWordChar)

/-! ## Statements that give styles -/

/-- What the reader of styles makes of a text does not depend on the place of the text. -/
theorem style_cases (text : List Char) :
    (∃ name attributes, Reads style text (fun f => f.1.value = name ∧ f.2 = attributes) []) ∨
      Fails style text := by
  unfold style
  rcases Reader.keyword_cases "style" text with hkeyword | hno
  swap
  · exact Or.inr hno.bind.fails
  rcases Reader.someBlanks_cases (text.dropWhile isWordChar) with hblanks | hno
  swap
  · exact Or.inr (hkeyword.bind_declines fun _ _ => hno.bind).fails
  generalize (text.dropWhile isWordChar).dropWhile isBlank = behind at hblanks
  rcases Reader.identifier_cases behind with hid | hno
  swap
  · exact Or.inr (hkeyword.bind_declines fun _ _ => hblanks.bind_declines fun _ _ =>
      hno.spanned.bind).fails
  rcases Reader.someBlanks_cases (behind.dropWhile isWordChar) with hblanks' | hno
  swap
  · exact Or.inr (hkeyword.bind_declines fun _ _ => hblanks.bind_declines fun _ _ =>
      hid.spanned.bind_declines fun _ _ => hno.bind).fails
  generalize (behind.dropWhile isWordChar).dropWhile isBlank = properties at hblanks'
  cases hproperties : (properties.splitOn ',').mapM property? with
  | none =>
    refine Or.inr (hkeyword.bind_fails fun _ _ => hblanks.bind_fails fun _ _ =>
      hid.spanned.bind_fails fun _ _ => hblanks'.bind_fails fun _ _ => Fails.position fun start => ?_)
    refine Reader.reads_takeAll.bind_fails ?_
    rintro _ rfl
    rw [hproperties]
    exact Reader.fails_fault _ _
  | some attributes =>
    refine Or.inl ⟨String.ofList (behind.takeWhile isWordChar), attributes, ?_⟩
    refine hkeyword.bind fun _ _ => hblanks.bind fun _ _ => hid.spanned.bind fun id hid' =>
      hblanks'.bind fun _ _ => Reads.position fun start => Reader.reads_takeAll.andThen ?_
    rw [hproperties]
    exact Reads.pure ⟨by rw [hid'], rfl⟩

/-- **A style gives its attributes to a node**, wherever it stands. -/
theorem says_of_isStyle {s : Statement} (h : IsStyle s) :
    ∃ name attributes, Says s.text (.style name attributes) := by
  obtain ⟨hword, halone, found, hfound⟩ := h
  rcases style_cases s.text with ⟨name, attributes, hreads⟩ | hfails
  · refine ⟨name, attributes, fun d t ht => ?_⟩
    obtain ⟨found', hok, hname, hattributes⟩ := Statement.read_of_reads (s := t)
      (by rw [ht]; exact hreads) (List.forall_mem_nil _)
    have hstyle : IsStyle t := ⟨by rw [ht]; exact hword, by rw [ht]; exact halone, found', hok⟩
    rcases readStatement_cases d t with ⟨-, id, attributes', hread, hstep⟩ | ⟨hno, -⟩
    · obtain rfl : found' = (id, attributes') := Except.ok.inj (hok.symm.trans hread)
      refine ⟨_, hstep, ?_⟩
      rw [← hname, ← hattributes]
      exact .style d id attributes'
    · exact absurd hstyle hno
  · obtain ⟨problem, hproblem⟩ := Statement.read_of_fails hfails
    rw [hfound] at hproblem
    exact absurd hproblem (by simp)

/-- Arrows add edges. -/
theorem size_lt_connectAll (d : Draft) (previous : Endpoint) {rest : List (Link × Endpoint)}
    (hne : rest ≠ []) : d.size < (connectAll d previous rest).size := by
  obtain ⟨⟨link, target⟩, rest, rfl⟩ := List.exists_cons_of_ne_nil hne
  unfold connectAll
  have hshape : Steps False d (declareShaped d target) := steps_declareShaped d target
  have hrest : ∀ next, Steps False next (connectAll next target rest) := fun next =>
    steps_connectAll next target rest
  refine lt_of_le_of_lt hshape.size_le (lt_of_lt_of_le ?_ (hrest _).size_le)
  rw [Draft.size_connect]
  omega

/-- A chain adds a node, an edge or a problem. -/
theorem size_lt_addChain (d : Draft) (chain : Chain) : d.size < (addChain d chain).size := by
  unfold addChain
  dsimp only
  split
  · rw [Draft.size_declare]
    omega
  · next hne =>
    have hshape : Steps False d (declareShaped d chain.first) := steps_declareShaped d chain.first
    exact lt_of_le_of_lt hshape.size_le (size_lt_connectAll _ _ hne)

/-- **A statement that gives no style adds a node, an edge or a problem.** -/
theorem size_lt_readStatement {s : Statement} (h : ¬ IsStyle s) (d : Draft) :
    d.size < (readStatement d s).size := by
  rcases readStatement_cases d s with ⟨hstyle, -⟩ | ⟨-, ⟨chain, hstep⟩ | ⟨problem, hstep⟩⟩
  · exact absurd hstyle h
  · rw [hstep]
    exact size_lt_addChain d chain
  · rw [hstep, Draft.size_report]
    omega

/-- **Statements that leave the size of the draft as it is all give styles.** -/
theorem isStyle_of_size_le {found : List Statement} {d : Draft}
    (h : (found.foldl readStatement d).size ≤ d.size) : ∀ s ∈ found, IsStyle s := by
  induction found generalizing d with
  | nil => exact List.forall_mem_nil _
  | cons s rest ih =>
    rw [List.foldl_cons] at h
    have hfirst := (steps_readStatement d s).size_le
    have hrest : Steps True (readStatement d s) (rest.foldl readStatement (readStatement d s)) :=
      Draft.steps_foldl (fun d => d) (fun t _ d => (steps_readStatement d t).mono fun _ => trivial) _
    refine List.forall_mem_cons.2 ⟨?_, ih (h.trans hfirst)⟩
    by_contra hno
    have hlt := size_lt_readStatement hno d
    have hle := hrest.size_le
    omega

/-! ## Lines of attributes -/

/-- Read by itself, the line gives styles to nodes with these ids and does nothing else. -/
def OnlyStyles (ids : List String) (line : List Char) : Prop :=
  ∃ visible found, conventions.hideComments 0 line = .ok visible ∧
    conventions.statements 0 visible = .ok found ∧
    ∀ s ∈ found, ∃ name ∈ ids, ∃ attributes, Says s.text (.style name attributes)

theorem onlyStyles_iff {ids : List String} {line : List Char} :
    OnlyStyles ids line ↔ ∃ texts, texts? line = some texts ∧
      ∀ t ∈ texts, ∃ name ∈ ids, ∃ attributes, Says t (.style name attributes) := by
  constructor
  · rintro ⟨visible, found, hvisible, hfound, hsaid⟩
    rw [hideComments_eq] at hvisible
    obtain rfl := Except.ok.inj hvisible
    exact ⟨_, (statements_eq_ok_iff 0).1 ⟨found, hfound, rfl⟩, List.forall_mem_map.2 hsaid⟩
  · rintro ⟨texts, htexts, hsaid⟩
    obtain ⟨found, hfound, rfl⟩ := (statements_eq_ok_iff 0).2 htexts
    exact ⟨_, found, hideComments_eq 0 line, hfound, fun s hs => hsaid s.text (List.mem_map_of_mem hs)⟩

/-- The lines of the attributes of a diagram. -/
def styleLines (d : Diagram) : List (List Char) :=
  (styled d).map (styleLine (Renaming.ofDiagram reservedWords d))

/-- The ids under which the nodes of a diagram are written. -/
def outputIds (d : Diagram) : List String := d.ids.map (Renaming.ofDiagram reservedWords d).apply

/-- Lines that each hold one statement are cut into these statements. -/
theorem texts?_unlines_indented (ls : List (List Char × List Char))
    (hblank : ∀ p ∈ ls, ∀ c ∈ p.1, isBlank c = true ∧ conventions.isPlain c = true)
    (h : ∀ p ∈ ls, conventions.IsStatement p.2) :
    texts? (Text.unlines (ls.map fun p => p.1 ++ p.2)) = some (ls.map Prod.snd) := by
  obtain ⟨hvisible, found, hfound, htexts⟩ := Conventions.statements_indented tidy hblank h 0
  have hsame := Except.ok.inj ((hideComments_eq 0 _).symm.trans hvisible)
  exact (statements_eq_ok_iff 0).1 ⟨found, by rw [hsame]; exact hfound, htexts⟩

theorem isBlank_indent : ∀ c ∈ indent, isBlank c = true ∧ conventions.isPlain c = true := by
  decide

/-! ## The draft of a written source -/

/-- The header and the statements of nodes and edges are cut as they were written. -/
theorem texts?_plainSaid (d : Diagram) (direction : Direction) :
    texts? (Text.unlines (headerText direction :: (plainSaid d).map fun p => indent ++ p.1)) =
      some (headerText direction :: (plainSaid d).map Prod.fst) := by
  have h := texts?_unlines_indented
    (([], headerText direction) :: (plainSaid d).map fun p => (indent, p.1))
    (List.forall_mem_cons.2 ⟨List.forall_mem_nil _, List.forall_mem_map.2 fun _ _ => isBlank_indent⟩)
    (List.forall_mem_cons.2 ⟨isStatement_headerText direction,
      List.forall_mem_map.2 fun p hp => (says_of_mem_plainSaid p hp).1⟩)
  simpa [Function.comp_def] using h

/-- The written text behind the front matter. -/
def bodyText (d : Diagram) (direction : Direction) : List Char :=
  Text.unlines (headerText direction :: (plainSaid d).map fun p => indent ++ p.1) ++
    Text.unlines (styleLines d)

theorem texts?_bodyText (d : Diagram) (direction : Direction) :
    texts? (bodyText d direction) = (texts? (Text.unlines (styleLines d))).map fun texts =>
      headerText direction :: ((plainSaid d).map Prod.fst ++ texts) := by
  rw [bodyText, texts?_unlines_append, texts?_plainSaid]
  rfl

/-- The front matter gives the title and leaves the body. -/
theorem frontMatter_write (d : Diagram) (direction : Direction) :
    ∃ offset, frontMatter (write d direction).toList =
      .ok (d.title?, ⟨bodyText d direction, offset⟩) := by
  let ids := Renaming.ofDiagram reservedWords d
  have hlines : lines d direction = frontMatterLines d.title? ++
      (headerText direction :: (plainSaid d).map (fun p => indent ++ p.1) ++ styleLines d) := by
    have hlines : lines d direction = frontMatterLines d.title? ++ [headerText direction] ++
        d.nodes.map (nodeLine ids) ++ d.edges.map (edgeLine ids) ++
        (styled d).map (styleLine ids) := rfl
    rw [hlines]
    simp [plainSaid, styleLines, ids, Function.comp_def, ← nodeLine_eq, ← edgeLine_eq]
  have hbody : bodyText d direction = headerText direction ++
      '\n' :: Text.unlines ((plainSaid d).map (fun p => indent ++ p.1) ++ styleLines d) := by
    rw [bodyText, ← Text.unlines_append, List.cons_append, Text.unlines_cons]
  obtain ⟨offset, hfront⟩ := frontMatter_eq d.title? direction
    (Text.unlines ((plainSaid d).map (fun p => indent ++ p.1) ++ styleLines d))
  refine ⟨offset, ?_⟩
  rw [hbody, ← hfront, write, String.toList_ofList, hlines, Text.unlines_append,
    List.cons_append, Text.unlines_cons]

/-- The facts of a written source without its attributes. -/
def plainFacts (d : Diagram) (direction : Direction) : List Fact :=
  headFacts d direction ++ (plainSaid d).map Prod.snd

/-- **What a written source describes**, whatever its lines of attributes say. -/
theorem describes_plainFacts (d : Diagram) (direction : Direction)
    (styles : List (String × List (String × String))) :
    Fact.Describes (plainFacts d direction ++ styles.map fun s => .style s.1 s.2) d.title? direction
      (d.nodes.map fun n =>
        { (Renaming.ofDiagram reservedWords d).node n with attributes := .empty })
      (d.edges.map (Renaming.ofDiagram reservedWords d).edge) styles := by
  have h := (describes_headFacts d direction).append (d.nodes.map fun n =>
    { (Renaming.ofDiagram reservedWords d).node n with attributes := .empty })
    (d.edges.map (Renaming.ofDiagram reservedWords d).edge) styles
  unfold plainFacts plainSaid
  simpa [Function.comp_def] using h

theorem map_id_plain (d : Diagram) :
    (d.nodes.map fun n => { (Renaming.ofDiagram reservedWords d).node n with
      attributes := .empty }).map Node.id = outputIds d :=
  Renaming.map_id_map fun _ => rfl

/-- **The draft of a written source**: it holds the nodes and the edges, and then reads the
statements that the lines of the attributes are cut into. -/
theorem draft_write_eq_ok {d : Diagram} (direction : Direction) {texts : List (List Char)}
    (h : texts? (Text.unlines (styleLines d)) = some texts) :
    ∃ (start : Draft) (found : List Statement), start.Holds (plainFacts d direction) ∧
      found.map Statement.text = texts ∧
      draft (write d direction).toList = .ok (found.foldl readStatement start) := by
  obtain ⟨offset, hfront⟩ := frontMatter_write d direction
  have hbody := texts?_bodyText d direction
  rw [h, Option.map_some] at hbody
  obtain ⟨all, hall, htexts⟩ := (statements_eq_ok_iff offset).2 hbody
  rw [List.map_eq_cons_iff] at htexts
  obtain ⟨first, rest, rfl, hfirst, hrest⟩ := htexts
  rw [List.map_eq_append_iff] at hrest
  obtain ⟨plain, found, rfl, hplain, hfound⟩ := hrest
  obtain ⟨start, hfold, hgains⟩ := Draft.gainsAll_foldl (fun d => d) readStatement
    (fun p hp d s hs => (says_of_mem_plainSaid p hp).2 d s hs) hplain
    { direction := some direction, title := d.title? }
  have hnodes : (plainFacts d direction).filterMap Fact.node? = _ :=
    (List.append_nil _ ▸ describes_plainFacts d direction []).node_eq
  refine ⟨start, found, (holds_headFacts d direction).gainsAll hgains ?_ ?_, hfound, ?_⟩
  · show (Fact.ids (plainFacts d direction)).Nodup
    rw [Fact.ids, hnodes, map_id_plain]
    exact Renaming.nodup_map_apply reservedWords
  · intro n hn
    have hmem : n ∈ (plainFacts d direction).filterMap Fact.node? := by
      rw [plainFacts, List.filterMap_append]
      exact List.mem_append_right _ hn
    rw [hnodes] at hmem
    exact Renaming.id_ne_empty_of_mem_map reservedWords (fun _ => rfl) n hmem
  · simp only [Mermaid.draft, bind, Except.bind, hfront, hideComments_eq, hall, readStatements,
      readHeader_eq direction hfirst, List.foldl_append, hfold]

/-- **A string that is left open in a line of attributes makes the source unreadable.** -/
theorem draft_write_eq_error {d : Diagram} (direction : Direction)
    (h : texts? (Text.unlines (styleLines d)) = none) :
    ∃ problem, draft (write d direction).toList = .error problem := by
  obtain ⟨offset, hfront⟩ := frontMatter_write d direction
  have hbody := texts?_bodyText d direction
  rw [h, Option.map_none] at hbody
  cases hcut : conventions.statements offset (visibleFrom (.code 0 true) (bodyText d direction)) with
  | ok found =>
    rw [(statements_eq_ok_iff offset).1 ⟨found, hcut, rfl⟩] at hbody
    exact absurd hbody (by simp)
  | error problem =>
    refine ⟨problem, ?_⟩
    simp only [Mermaid.draft, bind, Except.bind, hfront, hideComments_eq, hcut]

/-! ## Reading back -/

/-- Statements that say something each are given what they say. -/
theorem exists_styles {p : String → Prop} {texts : List (List Char)}
    (h : ∀ t ∈ texts, ∃ name, p name ∧ ∃ attributes, Says t (.style name attributes)) :
    ∃ styles : List (List Char × String × List (String × String)), styles.map Prod.fst = texts ∧
      ∀ s ∈ styles, p s.2.1 ∧ Says s.1 (.style s.2.1 s.2.2) := by
  choose! name hname attributes hsaid using h
  refine ⟨texts.map fun t => (t, name t, attributes t), ?_, ?_⟩
  · rw [List.map_map]
    exact List.map_id texts
  · exact List.forall_mem_map.2 fun t ht => ⟨hname t ht, hsaid t ht⟩

/-- Statements that give styles gain them all. -/
theorem gainsAll_styles {found : List Statement}
    {styles : List (List Char × String × List (String × String))}
    (hfound : found.map Statement.text = styles.map Prod.fst)
    (hsaid : ∀ s ∈ styles, Says s.1 (.style s.2.1 s.2.2)) (start : Draft) :
    Draft.GainsAll ((styles.map Prod.snd).map fun s => .style s.1 s.2) start
      (found.foldl readStatement start) := by
  have htexts : found.map Statement.text =
      (styles.map fun s => (s.1, Fact.style s.2.1 s.2.2)).map Prod.fst := by
    rw [hfound, List.map_map]
    rfl
  obtain ⟨final, hfold, hgains⟩ := Draft.gainsAll_foldl (fun d => d) readStatement
    (List.forall_mem_map.2 fun s hs d t ht => hsaid s hs d t ht) htexts start
  rw [hfold]
  simpa [Function.comp_def] using hgains

/-- A draft that resolves to as many nodes and edges as it held at first has not grown. -/
theorem size_le_of_resolve {start final : Draft} {facts : List Fact} {p : Node → Prop}
    {source : List Char} {e : Diagram} (hstart : start.Holds facts) (horderly : final.Orderly p)
    (hok : final.resolve source = .ok e)
    (hnodes : e.nodes.length = (facts.filterMap Fact.node?).length)
    (hedges : e.edges.length = (facts.filterMap Fact.edge?).length) : final.size ≤ start.size := by
  obtain ⟨⟨hproblems, -⟩, rfl⟩ := Draft.resolve_eq_ok_iff.1 hok
  rw [horderly.nodes_diagram, ← hstart.nodes_eq, List.length_map, List.length_map] at hnodes
  rw [Draft.edges_diagram, ← hstart.edges_eq, List.length_map, List.length_map] at hedges
  rw [Draft.size, Draft.size, hproblems, hnodes, hedges]
  exact Nat.le_add_right _ _

/-- Where no style is for an undeclared node, all styles are for nodes that the facts declare. -/
theorem style_ids_of_holds {final : Draft} {facts : List Fact} (h : final.Holds facts)
    (hundeclared : final.undeclaredStyles = []) :
    ∀ s ∈ facts.filterMap Fact.style?, s.1 ∈ Fact.ids facts := by
  rw [Draft.undeclaredStyles_eq_nil_iff] at hundeclared
  have hids : Fact.ids facts = final.nodes.map fun q => q.1.id := by
    rw [Fact.ids, ← h.nodes_eq, List.map_map]
    rfl
  rw [← h.styles_eq, hids]
  exact List.forall_mem_map.2 hundeclared

/-- **Statements behind the nodes and edges with which as many of them come back** only give styles to
nodes of the diagram. -/
theorem says_style_of_resolve {d e : Diagram} {direction : Direction} {start : Draft}
    {found : List Statement} {p : Node → Prop} {source : List Char}
    (hstart : start.Holds (plainFacts d direction))
    (horderly : (found.foldl readStatement start).Orderly p)
    (hok : (found.foldl readStatement start).resolve source = .ok e)
    (hnodes : e.nodes.length = d.nodes.length) (hedges : e.edges.length = d.edges.length) :
    ∀ s ∈ found, ∃ name ∈ outputIds d, ∃ attributes, Says s.text (.style name attributes) := by
  have hplain := describes_plainFacts d direction []
  rw [List.map_nil, List.append_nil] at hplain
  -- the statements add nothing, so they give styles
  have hsize := size_le_of_resolve hstart horderly hok
    (by rw [hplain.node_eq, List.length_map, hnodes])
    (by rw [hplain.edge_eq, List.length_map, hedges])
  obtain ⟨styles, hstyles, hsaid⟩ := exists_styles (p := fun _ => True)
    (List.forall_mem_map.2 fun s hs =>
      (says_of_isStyle (isStyle_of_size_le hsize s hs)).imp fun _ h => ⟨trivial, h⟩)
  -- they give them to declared nodes, and these are the written ones
  have hgains := gainsAll_styles hstyles.symm (fun s hs => (hsaid s hs).2) start
  have hall := describes_plainFacts d direction (styles.map Prod.snd)
  have hids : Fact.ids (plainFacts d direction ++
      (styles.map Prod.snd).map fun s => .style s.1 s.2) = outputIds d := by
    rw [Fact.ids, hall.node_eq, map_id_plain]
  have hfinal := hstart.gainsAll hgains
    (by rw [hids]; exact Renaming.nodup_map_apply reservedWords)
    (by simp [List.filterMap_map, Function.comp_def, Fact.node?])
  obtain ⟨⟨-, -, hundeclared⟩, -⟩ := Draft.resolve_eq_ok_iff.1 hok
  have hgiven := style_ids_of_holds hfinal hundeclared
  rw [hall.style_eq, hids] at hgiven
  intro s hs
  obtain ⟨style, hstyle, htext⟩ : ∃ style ∈ styles, style.1 = s.text := by
    rw [← List.mem_map, hstyles]
    exact List.mem_map_of_mem hs
  rw [← htext]
  exact ⟨style.2.1, hgiven style.2 (List.mem_map_of_mem hstyle), style.2.2, (hsaid style hstyle).2⟩

variable {d : Diagram} (hvalid : d.validate = .ok ()) (direction : Direction)

include hvalid

/-- **A written source whose lines of attributes only give styles is read back**: the nodes have the
attributes that the styles give, and all else is as it was written. -/
theorem exists_read_write (styles : List (List Char × String × List (String × String)))
    (htexts : texts? (Text.unlines (styleLines d)) = some (styles.map Prod.fst))
    (hsaid : ∀ s ∈ styles, s.2.1 ∈ outputIds d ∧ Says s.1 (.style s.2.1 s.2.2)) :
    ∃ e, read (write d direction) = .ok e ∧
      e.nodes = d.nodes.map (fun n =>
        ({ (Renaming.ofDiagram reservedWords d).node n with attributes := .empty } :
          Node).withStyles (styles.map Prod.snd)) ∧
      e.edges = d.edges.map (Renaming.ofDiagram reservedWords d).edge ∧ e.title? = d.title? ∧
      e.metadata.get? Diagram.directionKey = some direction.code := by
  obtain ⟨start, found, hstart, hfound, hdraft⟩ := draft_write_eq_ok direction htexts
  have hgains := gainsAll_styles hfound (fun s hs => (hsaid s hs).2) start
  have hids := map_id_plain d
  obtain ⟨e, hresolve, hnodes, hrest⟩ :=
    hstart.resolve_gainsAll hgains (describes_plainFacts d direction (styles.map Prod.snd))
      (by rw [hids]; exact Renaming.nodup_map_apply reservedWords)
      (Renaming.id_ne_empty_of_mem_map reservedWords fun _ => rfl)
      (by rw [hids]; exact Renaming.ends_map_edge hvalid _)
      (by rw [hids]; exact List.forall_mem_map.2 fun s hs => (hsaid s hs).1)
      (write d direction).toList
  refine ⟨e, by rw [read, hdraft]; exact hresolve, ?_, hrest⟩
  rw [hnodes, List.map_map]
  rfl

/-- **Which written sources come back with as many nodes and edges**: exactly those whose lines of
attributes, each read by itself, only give styles to nodes of the diagram. -/
theorem exists_read_write_iff :
    (∃ e, read (write d direction) = .ok e ∧ e.nodes.length = d.nodes.length ∧
        e.edges.length = d.edges.length) ↔
      ∀ line ∈ styleLines d, OnlyStyles (outputIds d) line := by
  simp only [onlyStyles_iff, ← exists_texts?_unlines_iff]
  constructor
  · rintro ⟨e, hread, hnodes, hedges⟩
    cases htexts : texts? (Text.unlines (styleLines d)) with
    | none =>
      obtain ⟨problem, hdraft⟩ := draft_write_eq_error direction htexts
      rw [read, hdraft] at hread
      exact absurd hread (by simp)
    | some texts =>
      obtain ⟨start, found, hstart, rfl, hdraft⟩ := draft_write_eq_ok direction htexts
      rw [read, hdraft] at hread
      have horderly := (Draft.orderly_empty _).steps (steps_draft hdraft)
      exact ⟨_, rfl, List.forall_mem_map.2
        (says_style_of_resolve hstart horderly hread hnodes hedges)⟩
  · rintro ⟨texts, htexts, hsaid⟩
    obtain ⟨styles, rfl, hstyles⟩ := exists_styles hsaid
    obtain ⟨e, hread, hnodes, hedges, -⟩ := exists_read_write hvalid direction styles htexts hstyles
    exact ⟨e, hread, by rw [hnodes, List.length_map], by rw [hedges, List.length_map]⟩

end Flowchart.Mermaid
