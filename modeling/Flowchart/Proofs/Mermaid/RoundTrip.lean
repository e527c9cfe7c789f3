import Flowchart.Proofs.Mermaid.Reading
import Flowchart.Proofs.Renaming
import Flowchart.Proofs.Source.Facts

/-!
# Mermaid is read as it was written

Behind the front matter and the header every line says one `Fact`: one line for each node, one for
each edge and one for the attributes of each node that has some. An output id is a word that is not
reserved, so no line is taken for a statement of another kind, not even one that starts with the id
`style`. So **a diagram is read back from its Mermaid source under its output ids**.
-/

namespace Flowchart.Mermaid

open Reader (Reads Declines)
open Text (isBlank isWordChar)

/-! ## Written statements -/

/-- The statement of a node behind its indentation. -/
def nodeText (ids : Renaming) (n : Node) : List Char :=
  (ids.apply n.id).toList ++ (opening n.type ++ (Label.encode n.label.toList ++ closing n.type))

/-- The statement of an edge behind its indentation. -/
def edgeText (ids : Renaming) (e : Edge) : List Char :=
  (ids.apply e.source).toList ++
    ' ' :: (arrow e.type ++ (pipeLabel e.label ++ ' ' :: (ids.apply e.target).toList))

/-- The statement of the attributes of a node behind its indentation. -/
def styleText (ids : Renaming) (n : Node) : List Char :=
  "style ".toList ++
    ((ids.apply n.id).toList ++ ' ' :: [','].intercalate (n.attributes.entries.map styleEntry))

/-- The line of a node is its text, indented. -/
theorem nodeLine_eq (ids : Renaming) (n : Node) : nodeLine ids n = indent ++ nodeText ids n := by
  simp only [nodeLine, nodeText, List.append_assoc]

/-- The line of an edge is its text, indented. -/
theorem edgeLine_eq (ids : Renaming) (e : Edge) : edgeLine ids e = indent ++ edgeText ids e := by
  simp only [edgeLine, edgeText, List.append_assoc, List.cons_append]

/-- The line of a style is its text, indented. -/
theorem styleLine_eq (ids : Renaming) (n : Node) : styleLine ids n = indent ++ styleText ids n := by
  have hentries : (n.attributes.entries.map fun p => p.1.toList ++ ':' :: p.2.toList) =
      n.attributes.entries.map styleEntry := rfl
  simp only [styleLine, styleText, hentries, List.append_assoc]

section

variable {ids : Renaming}

/-- A node is one statement if its id is a word. -/
theorem isStatement_nodeText {n : Node} (hid : Text.IsWord (ids.apply n.id).toList) :
    conventions.IsStatement (nodeText ids n) := by
  have hopening : ∀ c ∈ opening n.type, conventions.isPlain c = true := by
    cases n.type <;> decide
  have hclosing : conventions.IsStatement (closing n.type) := by
    refine Conventions.isStatement_of_plain ?_ ?_ <;> cases n.type <;> decide
  exact (isStatement_word hid).append (opening n.type) hopening
    ((Label.isStatement_encode n.label.toList).append [] (List.forall_mem_nil _) hclosing)

/-- An edge is one statement if its ends are words. -/
theorem isStatement_edgeText {e : Edge} (hsource : Text.IsWord (ids.apply e.source).toList)
    (htarget : Text.IsWord (ids.apply e.target).toList) :
    conventions.IsStatement (edgeText ids e) := by
  have harrow : ∀ c ∈ ' ' :: arrow e.type, conventions.isPlain c = true := by
    cases e.type <;> decide
  unfold edgeText
  cases e.label with
  | none =>
    have hbetween : ∀ c ∈ (' ' :: arrow e.type) ++ [' '], conventions.isPlain c = true := by
      cases e.type <;> decide
    simpa [pipeLabel] using (isStatement_word hsource).append _ hbetween (isStatement_word htarget)
  | some label =>
    have hbetween : ∀ c ∈ (' ' :: arrow e.type) ++ ['|'], conventions.isPlain c = true := by
      cases e.type <;> decide
    have hlabel := (Label.isStatement_encode label.toList).append ['|', ' '] (by decide)
      (isStatement_word htarget)
    simpa [pipeLabel] using (isStatement_word hsource).append _ hbetween hlabel

/-- A style is one statement if every attribute fits into it. -/
theorem isStatement_styleText {n : Node} (hid : Text.IsWord (ids.apply n.id).toList)
    (hne : n.attributes.entries ≠ []) (h : ∀ a ∈ n.attributes.entries, FitsStyle a) :
    conventions.IsStatement (styleText ids n) := by
  have hjoin : [','].intercalate (n.attributes.entries.map styleEntry) ≠ [] := by
    obtain ⟨a, rest, hentries⟩ := List.exists_cons_of_ne_nil hne
    have hentry : styleEntry a ∈ n.attributes.entries.map styleEntry :=
      List.mem_map_of_mem (by rw [hentries]; exact List.mem_cons_self)
    have hcolon : ':' ∈ styleEntry a := by simp [styleEntry]
    exact List.ne_nil_of_mem (Text.mem_intercalate_of_mem hentry hcolon)
  have hattributes := Conventions.isStatement_of_plain hjoin (plain_of_mem_styles h)
  have hkeyword : conventions.IsStatement "style".toList :=
    isStatement_word ⟨by decide, by decide⟩
  exact hkeyword.append [' '] (by decide)
    ((isStatement_word hid).append [' '] (by decide) hattributes)

end

/-! ## What statements say -/

/-- The reader of statements. -/
def Says (text : List Char) (fact : Fact) : Prop :=
  ∀ (d : Draft) (s : Statement), s.text = text →
    ∃ d', readStatement d s = d' ∧ Draft.Gains fact d d'

/-- What is not supported is reserved, so no id is taken for it. -/
theorem contains_unsupportedWords {word : String} (h : reservedWords.contains word = false) :
    unsupportedWords.contains word = false := by
  rw [Bool.eq_false_iff, ne_eq, List.contains_iff_mem]
  intro hmem
  rw [ReservedWords.contains, List.any_eq_false] at h
  exact h word hmem (by simp [reservedWords])

/-- **A statement that starts with an id is read as a chain**, also where the id is `style` but no
style follows. -/
theorem readStatement_chain {word rest : List Char} (hword : Text.IsWord word)
    (hrest : ∀ c ∈ rest.head?, isWordChar c = false)
    (hfree : unsupportedWords.contains (String.ofList word) = false)
    (hstyle : word = "style".toList → rest.head?.all isBlank = false ∨
      Declines style (word ++ rest))
    {P : Chain → Prop} (hread : Reads chain (word ++ rest) P []) {s : Statement}
    (hs : s.text = word ++ rest) (d : Draft) :
    ∃ chain, P chain ∧ readStatement d s = addChain d chain := by
  obtain ⟨found, hok, hP⟩ := Statement.read_of_reads (s := s) (by rw [hs]; exact hread)
    (List.forall_mem_nil _)
  refine ⟨found, hP, ?_⟩
  have hfirst : s.text.takeWhile isWordChar = word := by
    rw [hs]
    exact Text.takeWhile_append_of_ends hword.isWordChar hrest
  have hothers : s.text.dropWhile isWordChar = rest := by
    rw [hs]
    exact Text.dropWhile_append_of_ends hword.isWordChar hrest
  simp only [readStatement, hfirst, hothers, hfree, Bool.and_false, Bool.false_eq_true, if_false,
    hok]
  split
  -- a style is tried first and declined
  · next hkeyword =>
    simp only [Bool.and_eq_true, decide_eq_true_eq] at hkeyword
    obtain ⟨halone, hkeyword⟩ := hkeyword
    have hdeclines : Declines style s.text := by
      rw [hs]
      refine (hstyle hkeyword).resolve_left fun hno => ?_
      rw [halone] at hno
      exact Bool.false_ne_true hno.symm
    obtain ⟨problem, hproblem⟩ := Statement.read_of_declines hdeclines
    simp only [hproblem]
  · rfl

/-- **The statement of a node declares the node** under its output id. -/
theorem says_nodeText {ids : Renaming} {n : Node} (hid : Text.IsWord (ids.apply n.id).toList)
    (hfree : unsupportedWords.contains (ids.apply n.id) = false) :
    Says (nodeText ids n) (.node { ids.node n with attributes := .empty }) := by
  intro d s hs
  have hread := reads_chain_node hid n.type n.label.toList
  have hopening : ∀ c ∈ (opening n.type ++ (Label.encode n.label.toList ++ closing n.type)).head?,
      isWordChar c = false ∧ isBlank c = false := by
    cases n.type <;> exact Text.head?_cons (by decide) _
  have hbracket : (opening n.type ++ (Label.encode n.label.toList ++ closing n.type)).head?.all
      isBlank = false := by
    cases n.type <;> rfl
  obtain ⟨found, ⟨hname, hshape, hrest⟩, hstep⟩ := readStatement_chain hid
    (fun c hc => (hopening c hc).1) (by rw [String.ofList_toList]; exact hfree)
    (fun _ => Or.inl hbracket) hread hs d
  rw [String.ofList_toList] at hname
  rw [String.ofList_toList] at hshape
  refine ⟨_, rfl, ?_⟩
  rw [hstep, addChain, hrest]
  simp only [hshape, hname]
  exact .node d { ids.node n with attributes := .empty } found.first.span

/-- **The statement of an edge adds the edge** between the output ids. -/
theorem says_edgeText {ids : Renaming} {e : Edge}
    (hsource : Text.IsWord (ids.apply e.source).toList)
    (htarget : Text.IsWord (ids.apply e.target).toList)
    (hfree : unsupportedWords.contains (ids.apply e.source) = false) :
    Says (edgeText ids e) (.edge (ids.edge e)) := by
  intro d s hs
  have hread := reads_chain_edge hsource htarget e.type e.label
  obtain ⟨found, ⟨target, ⟨hname, hshape⟩, ⟨hname', hshape'⟩, hrest⟩, hstep⟩ :=
    readStatement_chain hsource (Text.head?_cons (by decide) _)
      (by rw [String.ofList_toList]; exact hfree)
      (fun hkeyword => Or.inr (by rw [hkeyword]; exact declines_style e.type)) hread hs d
  rw [String.ofList_toList] at hname
  rw [String.ofList_toList] at hname'
  refine ⟨_, rfl, ?_⟩
  rw [hstep, addChain, hrest]
  simp only [connectAll, declareShaped, hshape, hshape', hname, hname']
  exact .edge d (ids.edge e) found.first.id.span target.id.span

/-- **The statement of the attributes of a node gives it these attributes.** -/
theorem says_styleText {ids : Renaming} {n : Node} (hid : Text.IsWord (ids.apply n.id).toList)
    (hne : n.attributes.entries ≠ []) (h : ∀ a ∈ n.attributes.entries, FitsStyle a) :
    Says (styleText ids n) (.style (ids.apply n.id) n.attributes.entries) := by
  intro d s hs
  obtain ⟨⟨id, attributes⟩, hok, hname, hattributes⟩ := Statement.read_of_reads (s := s)
    (by rw [hs]; exact reads_style hid hne h) (List.forall_mem_nil _)
  rw [String.ofList_toList] at hname
  have hfirst : s.text.takeWhile isWordChar = "style".toList := by
    rw [hs, styleText]
    exact Text.takeWhile_append_of_ends (a := "style".toList) (by decide)
      (Text.head?_cons (c := ' ') (by decide) _)
  have hothers : (s.text.dropWhile isWordChar).head?.all isBlank = true := by
    rw [hs, styleText]
    have hdrop := Text.dropWhile_append_of_ends (p := isWordChar) (a := "style".toList) (by decide)
      (Text.head?_cons (c := ' ') (by decide)
        ((ids.apply n.id).toList ++ ' ' :: [','].intercalate (n.attributes.entries.map styleEntry)))
    exact congrArg (fun cs : List Char => cs.head?.all isBlank) hdrop
  have hsupported : unsupportedWords.contains (String.ofList "style".toList) = false := by decide
  refine ⟨d.style id attributes, ?_, ?_⟩
  · simp only [readStatement, hfirst, hothers, hsupported, Bool.and_false, Bool.false_eq_true,
      if_false, decide_true, Bool.and_self, if_true, hok]
  · have hgains := Draft.Gains.style d id attributes
    simp only at hname hattributes
    rw [hname, hattributes] at hgains
    rwa [hattributes]

/-! ## Front matter and header -/

/-- The line of the header. -/
def headerText (direction : Direction) : List Char :=
  "flowchart ".toList ++ direction.code.toList

/-- The header is one statement. -/
theorem isStatement_headerText (direction : Direction) :
    conventions.IsStatement (headerText direction) := by
  have hkeyword : conventions.IsStatement "flowchart".toList :=
    isStatement_word ⟨by decide, by decide⟩
  have hcode : conventions.IsStatement direction.code.toList := by
    cases direction <;> exact isStatement_word ⟨by decide, by decide⟩
  exact hkeyword.append [' '] (by decide) hcode

/-- A quoted title stands in one line. -/
theorem ne_feed_of_mem_encode {title : List Char} {c : Char} (h : c ∈ Text.Quoted.encode title) :
    c ≠ '\n' := by
  rw [Text.Quoted.encode, List.mem_cons, List.mem_append, List.mem_flatMap] at h
  rcases h with rfl | ⟨d, -, hd⟩ | h
  · decide
  · unfold Text.Quoted.escape at hd
    split at hd
    · revert c; decide
    · revert c; decide
    · revert c; decide
    · revert c; decide
    · next _ _ hfeed _ =>
      rw [List.mem_singleton.1 hd]
      exact hfeed
  · rw [List.mem_singleton.1 h]
    decide

/-- A quoted title ends with its quote, so nothing is trimmed there. -/
theorem isBlank_getLast?_encode (before title : List Char) :
    ∀ c ∈ (before ++ Text.Quoted.encode title).getLast?, isBlank c = false := by
  rw [Text.Quoted.encode, ← List.cons_append, ← List.append_assoc, List.getLast?_concat]
  exact fun c hc => by rw [← Option.mem_some.1 hc]; decide

/-- **A quoted title is read back** as the value of the front matter. -/
theorem frontMatterValue_encode (title : List Char) :
    frontMatterValue (Text.Quoted.encode title) = title := by
  have hdecode := Text.Quoted.decode?_encode_append title []
  rw [List.append_nil] at hdecode
  rw [frontMatterValue, hdecode]

/-- What opens and closes the front matter. -/
def fence : List Char := ['-', '-', '-']

/-- The key of the title. -/
def titleKey : List Char := ['t', 'i', 't', 'l', 'e', ':']

/-- The line of the title. -/
def titleText (title : String) : List Char :=
  titleKey ++ ' ' :: Text.Quoted.encode title.toList

/-- A title takes three lines in front of the header. -/
theorem frontMatterLines_some (title : String) :
    frontMatterLines (some title) = [fence, titleText title, fence] := rfl

/-- The line of the title is not trimmed any further. -/
theorem trim_titleText (title : String) :
    Text.trim (titleText title ++ ['\n']) = titleText title := by
  have hlast := isBlank_getLast?_encode (titleKey ++ [' ']) title.toList
  rw [List.append_assoc, List.singleton_append, ← titleText] at hlast
  exact Text.trim_line (List.cons_ne_nil _ _) (Text.head?_cons (c := 't') (by decide) _) hlast

/-- The title is picked up on the way to the end of the front matter. -/
theorem closeFrontMatter?_titleText (title : String) (offset : Nat) (body : List Char) :
    ∃ next, closeFrontMatter? none offset
      (Text.lines (titleText title ++ '\n' :: (fence ++ '\n' :: body))) =
        some (some title, ⟨body, next⟩) := by
  have hfeed : ∀ c ∈ titleText title, c ≠ '\n' := by
    intro c hc
    rw [titleText, List.mem_append, List.mem_cons] at hc
    rcases hc with hc | rfl | hc
    · revert c; decide
    · decide
    · exact ne_feed_of_mem_encode hc
  have hfence : titleText title ≠ "---".toList := by
    intro h
    have hhead : (titleText title).head? = some 't' := rfl
    rw [h] at hhead
    exact absurd hhead (by decide)
  have hkey : "title:".toList.isPrefixOf? (titleText title) =
      some (' ' :: Text.Quoted.encode title.toList) := Text.isPrefixOf?_append titleKey _
  have hvalue : Text.trim (' ' :: Text.Quoted.encode title.toList) =
      Text.Quoted.encode title.toList :=
    Text.trim_indented (List.forall_mem_singleton.2 rfl)
      (Text.head?_cons (by decide) _) (isBlank_getLast?_encode [] title.toList)
  have hclosing : Text.trim (fence ++ ['\n']) = "---".toList := by decide
  rw [Text.lines_append hfeed, closeFrontMatter?, trim_titleText, if_neg hfence, hkey]
  simp only [hvalue, frontMatterValue_encode, String.ofList_toList]
  rw [Text.lines_append (by decide), closeFrontMatter?, if_pos hclosing, Text.flatten_lines]
  exact ⟨_, rfl⟩

/-- **The front matter gives the title back** and leaves the body from the header on. -/
theorem frontMatter_eq (title? : Option String) (direction : Direction) (rest : List Char) :
    ∃ offset, frontMatter (Text.unlines (frontMatterLines title?) ++
        (headerText direction ++ '\n' :: rest)) =
      .ok (title?, ⟨headerText direction ++ '\n' :: rest, offset⟩) := by
  cases title? with
  -- no front matter: the first line is the header, not a fence
  | none =>
    have hfeed : ∀ c ∈ headerText direction, c ≠ '\n' := by cases direction <;> decide
    have hheader : Text.trim (headerText direction ++ ['\n']) ≠ "---".toList := by
      cases direction <;> decide
    have hstart : Text.trimStart (headerText direction ++ '\n' :: rest) =
        headerText direction ++ '\n' :: rest := by
      cases direction <;> exact Text.trimStart_eq_self (Text.head?_cons (c := 'f') (by decide) _)
    refine ⟨0, ?_⟩
    rw [frontMatterLines, Text.unlines_nil, List.nil_append, frontMatter, hstart,
      Text.lines_append hfeed]
    simp only [if_neg hheader]
  | some title =>
    have htext : Text.unlines (frontMatterLines (some title)) ++
        (headerText direction ++ '\n' :: rest) =
        fence ++ '\n' :: (titleText title ++ '\n' ::
          (fence ++ '\n' :: (headerText direction ++ '\n' :: rest))) := by
      simp only [frontMatterLines_some, Text.unlines_cons, Text.unlines_nil, List.append_assoc,
        List.cons_append, List.nil_append]
    have hopening : Text.trim (fence ++ ['\n']) = "---".toList := by decide
    have hstart : ∀ cs, Text.trimStart (fence ++ cs) = fence ++ cs := fun cs =>
      Text.trimStart_eq_self (Text.head?_cons (by decide) _)
    rw [htext, frontMatter, hstart, Text.lines_append (by decide)]
    simp only [if_pos hopening]
    obtain ⟨next, hclose⟩ := closeFrontMatter?_titleText title _
      (headerText direction ++ '\n' :: rest)
    refine ⟨next, ?_⟩
    rw [hclose]

/-- **The header sets the direction.** -/
theorem readHeader_eq (direction : Direction) {s : Statement} (hs : s.text = headerText direction) :
    readHeader s = .ok { direction := some direction } := by
  have hcode : Text.IsWord direction.code.toList := by
    cases direction <;> exact ⟨by decide, by decide⟩
  have hblank : ∀ c ∈ direction.code.toList.head?, isBlank c = false := fun c hc =>
    hcode.isBlank_eq_false c (List.mem_of_head? hc)
  have hkeyword := Reader.reads_keyword "flowchart" ⟨by decide, by decide⟩ direction.code.toList
  have hdirection : Reads (do
      Reader.someBlanks
      Reader.spanned Reader.identifier) (' ' :: direction.code.toList)
      (fun code => code.value = direction.code.toList) [] := by
    have hid : Reads Reader.identifier (direction.code.toList ++ [])
        (· = direction.code.toList) [] := Reader.reads_identifier hcode (by simp)
    rw [List.append_nil] at hid
    exact (Reader.reads_someSpace hblank).bind fun _ _ => hid.spanned
  have hread : Reads header (headerText direction)
      (fun found => ∃ code, found = some code ∧ code.value = direction.code.toList) [] := by
    rw [header]
    exact hkeyword.or_left.andThen hdirection.optional
  obtain ⟨found, hok, code, rfl, hvalue⟩ := Statement.read_of_reads (s := s)
    (by rw [hs]; exact hread) (List.forall_mem_nil _)
  rw [readHeader, hok]
  simp only [hvalue, String.ofList_toList, Direction.read_code]

/-! ## The written lines -/

/-- The nodes whose attributes are written. -/
def styled (d : Diagram) : List Node := d.nodes.filter fun n => !n.attributes.isEmpty

/-- The statements of a diagram behind its header, each with what it says. -/
def said (d : Diagram) : List (List Char × Fact) :=
  let ids := Renaming.ofDiagram reservedWords d
  d.nodes.map (fun n => (nodeText ids n, .node { ids.node n with attributes := .empty })) ++
    (d.edges.map (fun e => (edgeText ids e, .edge (ids.edge e))) ++
      (styled d).map fun n => (styleText ids n, .style (ids.apply n.id) n.attributes.entries))

/-- The lines that are written are the front matter, the header, and what is said of the diagram. -/
theorem lines_eq (d : Diagram) (direction : Direction) :
    lines d direction = frontMatterLines d.title? ++
      (headerText direction :: (said d).map fun p => indent ++ p.1) := by
  let ids := Renaming.ofDiagram reservedWords d
  have hlines : lines d direction = frontMatterLines d.title? ++ [headerText direction] ++
      d.nodes.map (nodeLine ids) ++ d.edges.map (edgeLine ids) ++
      (styled d).map (styleLine ids) := rfl
  rw [hlines]
  simp [said, ids, Function.comp_def, ← nodeLine_eq, ← edgeLine_eq, ← styleLine_eq]

/-- The statements of the nodes and the edges, each with what it says. -/
def plainSaid (d : Diagram) : List (List Char × Fact) :=
  let ids := Renaming.ofDiagram reservedWords d
  d.nodes.map (fun n => (nodeText ids n, .node { ids.node n with attributes := .empty })) ++
    d.edges.map fun e => (edgeText ids e, .edge (ids.edge e))

/-- **Every statement of a node or an edge says its fact**, whatever the attributes. -/
theorem says_of_mem_plainSaid {d : Diagram} :
    ∀ p ∈ plainSaid d, conventions.IsStatement p.1 ∧ Says p.1 p.2 := by
  intro p hp
  rw [plainSaid, List.mem_append, List.mem_map, List.mem_map] at hp
  rcases hp with ⟨n, hn, rfl⟩ | ⟨e, he, rfl⟩
  · have hmem := Renaming.id_mem_idsOf hn
    have hid := Renaming.isWord_apply reservedWords hmem
    exact ⟨isStatement_nodeText hid,
      says_nodeText hid (contains_unsupportedWords (Renaming.contains_apply reservedWords hmem))⟩
  · have hsource := Renaming.source_mem_idsOf he
    have hword := Renaming.isWord_apply reservedWords hsource
    have hword' := Renaming.isWord_apply reservedWords (Renaming.target_mem_idsOf he)
    exact ⟨isStatement_edgeText hword hword', says_edgeText hword hword'
      (contains_unsupportedWords (Renaming.contains_apply reservedWords hsource))⟩

/-- **Every written statement says its fact.** -/
theorem says_of_mem_said {d : Diagram}
    (hattributes : ∀ n ∈ d.nodes, ∀ a ∈ n.attributes.entries, FitsStyle a) :
    ∀ p ∈ said d, conventions.IsStatement p.1 ∧ Says p.1 p.2 := by
  intro p hp
  rw [said, ← List.append_assoc, List.mem_append] at hp
  rcases hp with hp | hp
  · exact says_of_mem_plainSaid p hp
  · obtain ⟨n, hn, rfl⟩ := List.mem_map.1 hp
    rw [styled, List.mem_filter] at hn
    have hmem := Renaming.id_mem_idsOf hn.1
    have hid := Renaming.isWord_apply reservedWords hmem
    have hne : n.attributes.entries ≠ [] := by simpa [Dictionary.isEmpty] using hn.2
    exact ⟨isStatement_styleText hid hne (hattributes n hn.1),
      says_styleText hid hne (hattributes n hn.1)⟩

/-- **The draft of a written source gains what was written** behind the title and the direction. -/
theorem draft_eq {d : Diagram}
    (hattributes : ∀ n ∈ d.nodes, ∀ a ∈ n.attributes.entries, FitsStyle a) (direction : Direction) :
    ∃ draft, Mermaid.draft (write d direction).toList = .ok draft ∧
      Draft.GainsAll ((said d).map Prod.snd)
        { direction := some direction, title := d.title? } draft := by
  let ls := ([], headerText direction) :: (said d).map fun p => (indent, p.1)
  have hblank : ∀ p ∈ ls, ∀ c ∈ p.1, isBlank c = true ∧ conventions.isPlain c = true := by
    have hindent : ∀ c ∈ indent, isBlank c = true ∧ conventions.isPlain c = true := by decide
    intro p hp
    rcases List.mem_cons.1 hp with rfl | hp
    · exact List.forall_mem_nil _
    · obtain ⟨q, -, rfl⟩ := List.mem_map.1 hp
      exact hindent
  have hall : ∀ p ∈ ls, conventions.IsStatement p.2 := by
    intro p hp
    rcases List.mem_cons.1 hp with rfl | hp
    · exact isStatement_headerText direction
    · obtain ⟨q, hq, rfl⟩ := List.mem_map.1 hp
      exact (says_of_mem_said hattributes q hq).1
  have hbody : Text.unlines (ls.map fun p => p.1 ++ p.2) =
      headerText direction ++ '\n' :: Text.unlines ((said d).map fun p => indent ++ p.1) := by
    simp [ls, Function.comp_def]
  -- the front matter is taken off before comments are hidden
  obtain ⟨offset, hfront⟩ := frontMatter_eq d.title? direction
    (Text.unlines ((said d).map fun p => indent ++ p.1))
  obtain ⟨hvisible, found, hfound, htexts⟩ :=
    Conventions.statements_indented tidy hblank hall offset
  rw [hbody] at hvisible hfound
  rw [List.map_cons, List.map_map, List.map_eq_cons_iff] at htexts
  obtain ⟨first, rest, rfl, hfirst, hrest⟩ := htexts
  obtain ⟨draft, hfold, hgains⟩ := Draft.gainsAll_foldl (fun d => d) readStatement
    (fun p hp d s hs => (says_of_mem_said hattributes p hp).2 d s hs) hrest
    { direction := some direction, title := d.title? }
  refine ⟨draft, ?_, hgains⟩
  have htext : (write d direction).toList = Text.unlines (frontMatterLines d.title?) ++
      (headerText direction ++ '\n' :: Text.unlines ((said d).map fun p => indent ++ p.1)) := by
    rw [write, String.toList_ofList, lines_eq, Text.unlines_append, Text.unlines_cons]
  rw [htext, ← hfold]
  simp only [Mermaid.draft, bind, Except.bind, hfront, hvisible, hfound, readStatements,
    readHeader_eq direction hfirst]

/-! ## The round trip -/

/-- Title and direction are there before the first statement. -/
def headFacts (d : Diagram) (direction : Direction) : List Fact :=
  .direction direction :: d.title?.toList.map .title

/-- The header and the front matter set the direction and the title. -/
theorem holds_headFacts (d : Diagram) (direction : Direction) :
    Draft.Holds { direction := some direction, title := d.title? } (headFacts d direction) := by
  unfold headFacts
  cases d.title? <;> exact ⟨rfl, rfl, rfl, rfl, rfl, rfl⟩

/-- They declare nothing else. -/
theorem describes_headFacts (d : Diagram) (direction : Direction) :
    Fact.Describes (headFacts d direction) d.title? direction [] [] [] := by
  unfold headFacts
  cases d.title? <;> exact ⟨rfl, rfl, rfl, rfl, rfl⟩

/-- The attributes that are written, by output id. -/
def writtenStyles (d : Diagram) : List (String × List (String × String)) :=
  (styled d).map fun n => ((Renaming.ofDiagram reservedWords d).apply n.id, n.attributes.entries)

/-- **What is written describes the renamed diagram.** -/
theorem describes_said (d : Diagram) (direction : Direction) :
    Fact.Describes (headFacts d direction ++ (said d).map Prod.snd) d.title? direction
      (d.nodes.map fun n =>
        { (Renaming.ofDiagram reservedWords d).node n with attributes := .empty })
      (d.edges.map (Renaming.ofDiagram reservedWords d).edge) (writtenStyles d) := by
  have h := (describes_headFacts d direction).append (d.nodes.map fun n =>
    { (Renaming.ofDiagram reservedWords d).node n with attributes := .empty })
    (d.edges.map (Renaming.ofDiagram reservedWords d).edge) (writtenStyles d)
  unfold said
  simpa [writtenStyles, Function.comp_def] using h

/-- **The styles give every node its attributes back.** -/
theorem withStyles_writtenStyles {d : Diagram} {n : Node} (hn : n ∈ d.nodes) :
    ({ (Renaming.ofDiagram reservedWords d).node n with attributes := .empty } : Node).withStyles
      (writtenStyles d) = (Renaming.ofDiagram reservedWords d).node n := by
  let ids := Renaming.ofDiagram reservedWords d
  have hnodup : (d.nodes.map fun m => ids.apply m.id).Nodup := by
    have h := Renaming.nodup_map_apply reservedWords (d := d)
    rwa [Diagram.ids, List.map_map] at h
  -- output ids are distinct, so no other style is given to this node
  have hchosen : (writtenStyles d).filter (fun s => s.1 = ids.apply n.id) =
      ([n].filter fun m => !m.attributes.isEmpty).map fun m =>
        (ids.apply m.id, m.attributes.entries) := by
    rw [← Keyed.filter_key_eq (fun m => ids.apply m.id) hnodup hn, List.filter_comm, writtenStyles,
      List.filter_map]
    rfl
  unfold Node.withStyles
  show List.foldl _ _ ((writtenStyles d).filter fun s => s.1 = ids.apply n.id) = ids.node n
  rw [hchosen]
  cases hempty : n.attributes.isEmpty with
  | true =>
    have hnone : n.attributes = .empty := Dictionary.eq_empty_of_isEmpty hempty
    simp only [List.filter_cons, hempty, Bool.not_true, Bool.false_eq_true, if_false,
      List.filter_nil, List.map_nil, List.foldl_nil]
    rw [Renaming.node, hnone]
  | false =>
    simp only [List.filter_cons, hempty, Bool.not_false, if_true, List.filter_nil, List.map_cons,
      List.map_nil, List.foldl_cons, List.foldl_nil, Node.withAttributes,
      Dictionary.insertAll_entries]
    rfl

/-- **The Mermaid round trip.** Every valid diagram whose attributes fit into styles is read back from
its Mermaid source under its output ids, with its title and the direction it was written in. -/
theorem mermaid_read_write {d : Diagram} (hvalid : d.validate = .ok ())
    (hattributes : ∀ n ∈ d.nodes, ∀ a ∈ n.attributes.entries, FitsStyle a) (direction : Direction) :
    ∃ e, read (write d direction) = .ok e ∧
      e.nodes = d.nodes.map (Renaming.ofDiagram reservedWords d).node ∧
      e.edges = d.edges.map (Renaming.ofDiagram reservedWords d).edge ∧ e.title? = d.title? ∧
      e.metadata.get? Diagram.directionKey = some direction.code := by
  obtain ⟨draft, hdraft, hgains⟩ := draft_eq hattributes direction
  let ids := Renaming.ofDiagram reservedWords d
  have hmap : (d.nodes.map fun n => { ids.node n with attributes := .empty }).map Node.id =
      d.ids.map ids.apply := Renaming.map_id_map fun _ => rfl
  obtain ⟨e, hresolve, hnodes, hrest⟩ :=
    (holds_headFacts d direction).resolve_gainsAll hgains (describes_said d direction)
      (by rw [hmap]; exact Renaming.nodup_map_apply reservedWords)
      (Renaming.id_ne_empty_of_mem_map reservedWords fun _ => rfl)
      (by rw [hmap]; exact Renaming.ends_map_edge hvalid ids)
      (by
        intro s hs
        obtain ⟨m, hm, rfl⟩ := List.mem_map.1 hs
        rw [hmap]
        exact List.mem_map_of_mem (List.mem_map_of_mem (List.mem_filter.1 hm).1))
      (write d direction).toList
  refine ⟨e, by rw [read, hdraft]; exact hresolve, ?_, hrest⟩
  rw [hnodes, List.map_map]
  exact List.map_congr_left fun n hn => withStyles_writtenStyles hn

/-- A diagram whose ids, labels and attributes look like Mermaid syntax. -/
def tangled : Diagram := .of
  [{ id := "end", label := "a]; %% \"b\" #quot;\nc", type := .decision,
      attributes := ⟨[("fill", "#f96"), ("stroke", "a:b\x7b")], by decide⟩ },
    { id := "style", label := "", type := .finish, attributes := ⟨[("x", "")], by decide⟩ },
    { id := "", label := "/slanted/", type := .data },
    { id := "end_1", label := " padded ", type := .unspecified }]
  [{ source := "style", target := "end", label := some "", type := .conditional },
    { source := "style", target := "end", label := some "|no|", type := .loopBack },
    { source := "", target := "" }]
  ⟨[("title", "---\n\"title\": %%")], by decide⟩ (by decide)

theorem mermaid_read_write_tangled :
    tangled.validate = .ok () ∧
      (∀ n ∈ tangled.nodes, ∀ a ∈ n.attributes.entries, FitsStyle a) ∧
      ∃ e, read (write tangled .rightLeft) = .ok e ∧
        e.nodes = tangled.nodes.map (Renaming.ofDiagram reservedWords tangled).node ∧
        e.edges = tangled.edges.map (Renaming.ofDiagram reservedWords tangled).edge ∧
        e.title? = tangled.title? ∧
        e.metadata.get? Diagram.directionKey = some Direction.rightLeft.code :=
  ⟨by decide, by decide, mermaid_read_write (by decide) (by decide) .rightLeft⟩

end Flowchart.Mermaid
