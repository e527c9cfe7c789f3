import Flowchart.Proofs.PlantUml.Reading
import Flowchart.Proofs.Renaming
import Flowchart.Proofs.Source.Facts

/-!
# PlantUML is read as it was written

Between the first and the last line every line says one `Fact`: the line of the title, that of the
direction, one for each node and one for each edge. An output id may be the keyword of an element, but
an element starts with a quote behind its keyword and an edge with an arrow; a quote or the head of an
arrow also tells both from a direction. So **a diagram is read back from its PlantUML source under its
output ids**, but for what is not written: attributes, empty edge labels and the sense of a direction.
-/

namespace Flowchart.PlantUml

open Reader (Reads Declines)
open Text (isBlank isWordChar firstWord lower sameLetters)

/-! ## First words -/

/-- Letter case does not lead to an at sign. -/
theorem toLower_ne_at {c : Char} (h : c ≠ '@') : c.toLower ≠ '@' := by
  intro hat
  rw [Char.toLower] at hat
  split at hat
  · next hupper =>
    obtain ⟨hfirst, hlast⟩ := hupper
    have hval := congrArg (fun d : Char => d.val.toNat) hat
    simp only [UInt32.toNat_add] at hval
    have hshift : ('a'.val - 'A'.val).toNat = 32 := rfl
    have hsign : '@'.val.toNat = 64 := rfl
    have hlow : 65 ≤ c.val.toNat := UInt32.le_iff_toNat_le.1 hfirst
    have hhigh : c.val.toNat ≤ 90 := UInt32.le_iff_toNat_le.1 hlast
    rw [hshift, hsign] at hval
    omega
  · exact h hat

/-- No word spells `@enduml`. -/
theorem sameLetters_enduml {word : List Char} (h : Text.IsWord word) :
    sameLetters "@enduml".toList word = false := by
  obtain ⟨c, cs, rfl⟩ := List.exists_cons_of_ne_nil h.ne_nil
  have hne := toLower_ne_at (h.ne_of_mem List.mem_cons_self (d := '@') (by decide))
  rw [sameLetters, beq_eq_false_iff_ne]
  intro hlower
  exact hne (List.head_eq_of_cons_eq hlower).symm

/-- A reserved word is not met where a word is not reserved. -/
theorem lower_not_mem_reserved {word : String} (h : reservedWords.contains word = false) :
    String.ofList (lower word.toList) ∉ reservedWords.words := by
  have hlower : ∀ w ∈ reservedWords.words, lower w.toList = w.toList := by decide
  intro hmem
  rw [ReservedWords.contains, List.any_eq_false] at h
  refine h _ hmem ?_
  have hsame := hlower _ hmem
  rw [String.toList_ofList] at hsame
  simp [reservedWords, sameLetters, hsame]

/-- No direction is set where a quote or the head of an arrow stands. -/
theorem ofDirection?_eq_none {text : List Char} {c : Char} (hmem : c ∈ text)
    (hc : c ∈ ['"', '>']) : ofDirection? text = none := by
  have hblank : ∀ c ∈ ['"', '>'], isBlank c = false := by decide
  have hlower : ∀ c ∈ ['"', '>'], c.toLower = c := by decide
  have hno : ∀ c ∈ ['"', '>'], ∀ d ∈ [Direction.leftRight, .topDown],
      c ∉ (directionStatement d).toList := by decide
  -- the character stays through both normalizations, of blanks and of letter case
  have hnormal : c ∈ lower ([' '].intercalate (Text.words text)) := by
    rw [← hlower c hc]
    exact List.mem_map_of_mem (Text.mem_intercalate_words hmem (hblank c hc))
  rw [ofDirection?, List.find?_eq_none]
  intro d hd hsame
  rw [decide_eq_true_eq] at hsame
  exact hno c hc d hd (by rw [hsame]; exact hnormal)

/-! ## Written statements -/

/-- The statement of a node. -/
def nodeText (ids : Renaming) (n : Node) : List Char :=
  (element n.type).toList ++ ' ' :: ('"' :: (Label.encode n.label.toList ++
    '"' :: (" as ".toList ++ ((ids.apply n.id).toList ++ stereotypeText n.type))))

/-- The statement of an edge. -/
def edgeText (ids : Renaming) (e : Edge) : List Char :=
  (ids.apply e.source).toList ++
    ' ' :: (arrow e.type ++ ' ' :: ((ids.apply e.target).toList ++ edgeLabel e.label))

/-- The statement of a title. -/
def titleText (title : String) : List Char :=
  Text.trimEnd ("title ".toList ++ Label.encodePadded title.toList)

theorem nodeLine_eq (ids : Renaming) (n : Node) : nodeLine ids n = nodeText ids n := by
  rw [nodeText, stereotypeText, nodeLine]
  cases stereotype? n.type with
  | none =>
    simp only [List.append_assoc]
    rfl
  | some name =>
    simp only [List.append_assoc]
    rfl

theorem edgeLine_eq (ids : Renaming) (e : Edge) : edgeLine ids e = edgeText ids e := by
  simp only [edgeLine, edgeText, List.append_assoc, List.cons_append]

/-- The written title is the keyword alone, or the keyword and the padded label. -/
theorem titleText_cases (title : String) :
    (titleText title = "title".toList ∧ title = "") ∨
      (titleText title = "title".toList ++ ' ' :: Label.encodePadded title.toList ∧
        title ≠ "") := by
  unfold titleText
  by_cases h : title = ""
  · refine Or.inl ⟨?_, h⟩
    rw [h]
    decide
  · refine Or.inr ⟨?_, h⟩
    have hlast := Label.isBlank_getLast?_encodePadded title.toList
    have hne : Label.encodePadded title.toList ≠ [] :=
      Label.encodePadded_ne_nil (by simpa using h)
    refine Text.trimEnd_eq_self ?_
    rw [List.getLast?_append_of_ne_nil _ hne]
    exact hlast

/-! ## What statements say -/

/-- A statement that says a fact; it starts with a word and so does not end the diagram. -/
structure Says (text : List Char) (fact : Fact) : Prop where
  isStatement : conventions.IsStatement text
  isWord : Text.IsWord (firstWord text)
  gains : ∀ (d : Draft) (s : Statement), s.text = text →
    ∃ d', readStatement d s = d' ∧ Draft.Gains fact d d'

/-- The title is set. -/
theorem says_titleText (title : String) : Says (titleText title) (.title title) := by
  have hkeyword : Text.IsWord "title".toList := ⟨by decide, by decide⟩
  obtain ⟨rest, htext, hblank, hvalue, hstatement⟩ : ∃ rest,
      titleText title = "title".toList ++ rest ∧ (∀ c ∈ rest.head?, isBlank c = true) ∧
        Text.trim rest = Label.encodePadded title.toList ∧
        conventions.IsStatement (titleText title) := by
    rcases titleText_cases title with ⟨htext, rfl⟩ | ⟨htext, hne⟩
    · refine ⟨[], htext, by simp, rfl, ?_⟩
      rw [htext]
      exact isStatement_word hkeyword
    · refine ⟨' ' :: Label.encodePadded title.toList, htext, Text.head?_cons (by decide) _, ?_, ?_⟩
      · exact Text.trim_indented (List.forall_mem_singleton.2 rfl)
          (Label.isBlank_head?_encodePadded _) (Label.isBlank_getLast?_encodePadded _)
      · rw [htext]
        exact (isStatement_word hkeyword).append [' '] (by decide)
          (isStatement_encodePadded (by simpa using hne))
  have hfirst : firstWord (titleText title) = "title".toList := by
    rw [htext]
    exact hkeyword.firstWord_append hblank
  have hname : String.ofList (lower "title".toList) = "title" := by decide
  refine ⟨hstatement, by rw [hfirst]; exact hkeyword, fun d s hs => ?_⟩
  refine ⟨d.setTitle title, ?_, .title d title⟩
  have hdrop : (titleText title).drop "title".toList.length = rest := by
    rw [htext, List.drop_left]
  simp only [readStatement, hs, hfirst, hname, if_true, hdrop, hvalue, Label.decode_encodePadded,
    String.ofList_toList]

/-- The direction of the same axis that a source can set. -/
def axis (direction : Direction) : Direction :=
  if direction.isHorizontal then .leftRight else .topDown

/-- The axis of a direction is set. -/
theorem says_directionStatement (direction : Direction) :
    Says (directionStatement direction).toList (.direction (axis direction)) := by
  have hword : Text.IsWord (firstWord (directionStatement direction).toList) := by
    cases direction <;> exact ⟨by decide, by decide⟩
  have hname : String.ofList (lower (firstWord (directionStatement direction).toList)) ≠ "title" := by
    cases direction <;> decide
  have hknown : ofDirection? (directionStatement direction).toList = some (axis direction) := by
    cases direction <;> decide
  refine ⟨⟨fun due => Conventions.Even.of_plain ?_, ?_, ?_⟩, hword, fun d s hs => ?_⟩
  · cases direction <;> decide
  · cases direction <;> exact ⟨_, rfl, by decide⟩
  · exact ⟨'n', by cases direction <;> decide, by decide⟩
  · refine ⟨d.setDirection (axis direction), ?_, .direction d (axis direction)⟩
    unfold readStatement
    simp only [hs, hname, if_false, hknown]

section

variable {ids : Renaming}

theorem isStatement_nodeText {n : Node} (hid : Text.IsWord (ids.apply n.id).toList) :
    conventions.IsStatement (nodeText ids n) := by
  have hlabel := (isStatement_word (isWord_element n.type)).append [' '] (by decide)
    (isStatement_quoted n.label.toList)
  have hnode := hlabel.append " as ".toList (by decide) (isStatement_word hid)
  have hstereotype : ∀ name, stereotype? n.type = some name →
      conventions.IsStatement ("<<".toList ++ name.toList ++ ">>".toList) := by
    intro name hname
    cases htype : n.type <;> rw [htype] at hname <;> cases hname <;>
      exact Conventions.isStatement_of_plain (by decide) (by decide)
  cases hname : stereotype? n.type with
  | none =>
    rw [nodeText, stereotypeText, hname]
    simpa using hnode
  | some name =>
    rw [nodeText, stereotypeText, hname]
    simpa using hnode.append [' '] (by decide) (hstereotype name hname)

theorem isStatement_edgeText {e : Edge} (hsource : Text.IsWord (ids.apply e.source).toList)
    (htarget : Text.IsWord (ids.apply e.target).toList) :
    conventions.IsStatement (edgeText ids e) := by
  have hbetween : ∀ c ∈ ' ' :: (arrow e.type ++ [' ']), conventions.isPlain c = true := by
    cases e.type <;> decide
  have hends := (isStatement_word hsource).append _ hbetween (isStatement_word htarget)
  unfold edgeText
  rcases edgeLabel_cases e.label with ⟨hlabel, -⟩ | ⟨l, hne, hlabel, -⟩
  · rw [hlabel]
    simpa using hends
  · have hpadded : conventions.IsStatement (Label.encodePadded l.toList) :=
      isStatement_encodePadded (by simpa using hne)
    rw [hlabel]
    simpa using hends.append [' ', ':', ' '] (by decide) hpadded

/-- **The statement of a node declares the node** under its output id, without attributes. -/
theorem says_nodeText {n : Node} (hid : Text.IsWord (ids.apply n.id).toList) :
    Says (nodeText ids n) (.node { ids.node n with attributes := .empty }) := by
  have hkeyword := isWord_element n.type
  have hfirst : firstWord (nodeText ids n) = (element n.type).toList :=
    hkeyword.firstWord_append (Text.head?_cons (by decide) _)
  have hname : String.ofList (lower (element n.type).toList) ≠ "title" := by
    cases n.type <;> decide
  have hskipped : skippedWords.contains (String.ofList (lower (element n.type).toList)) = false := by
    cases n.type <;> decide
  have helement : isElement (String.ofList (lower (element n.type).toList)) = true := by
    cases n.type <;> decide
  have hmark : (element n.type).toList.head? ≠ some '!' := by
    cases n.type <;> decide
  have hdirection : ofDirection? (nodeText ids n) = none :=
    ofDirection?_eq_none (c := '"') (by simp [nodeText]) (by decide)
  have hlength : (element n.type).toList.length < (nodeText ids n).length := by
    rw [nodeText, List.length_append, List.length_cons]
    omega
  have hknown : ofElement? (element n.type).toList ((stereotype? n.type).map String.toList) =
      some n.type := by
    cases n.type <;> decide
  refine ⟨isStatement_nodeText hid, by rw [hfirst]; exact hkeyword, fun d s hs => ?_⟩
  obtain ⟨found, hok, hfound, hid, hlabel, hstereotype⟩ := Statement.read_of_reads (s := s)
    (by rw [hs]; exact reads_elementDeclaration n.type n.label.toList hid) (List.forall_mem_nil _)
  refine ⟨addElement d found, ?_, ?_⟩
  · unfold readStatement
    simp only [hok]
    simp only [hs, hfirst, hname, if_false, hdirection, hskipped, Bool.false_eq_true, hmark, hlength,
      decide_true, helement, Bool.and_self, if_true]
  · rw [addElement, hfound, hstereotype, hknown, hid, hlabel]
    simp only [Label.decode_encode, String.ofList_toList, Option.getD_some]
    exact .node d { ids.node n with attributes := .empty } found.id.span

/-- **The statement of an edge adds the edge** between the output ids, its label as it is shown. -/
theorem says_edgeText {e : Edge} (hsource : Text.IsWord (ids.apply e.source).toList)
    (htarget : Text.IsWord (ids.apply e.target).toList)
    (hfree : reservedWords.contains (ids.apply e.source) = false) :
    Says (edgeText ids e) (.edge { ids.edge e with label := shownLabel e.label }) := by
  have hfirst : firstWord (edgeText ids e) = (ids.apply e.source).toList :=
    hsource.firstWord_append (Text.head?_cons (by decide) _)
  have hreserved := lower_not_mem_reserved hfree
  have hwords : reservedWords.words = "title" :: skippedWords := rfl
  rw [hwords, List.mem_cons, not_or] at hreserved
  obtain ⟨htitle, hskipped⟩ := hreserved
  have hmark : (ids.apply e.source).toList.head? ≠ some '!' := fun h =>
    hsource.ne_of_mem (d := '!') (List.mem_of_head? h) (by decide) rfl
  have hhead : '>' ∈ edgeText ids e := by
    have harrow : '>' ∈ arrow e.type := by cases e.type <;> decide
    unfold edgeText
    exact List.mem_append_right _ (List.mem_cons_of_mem _ (List.mem_append_left _ harrow))
  -- so neither a title, a direction nor a skipped statement is met, whatever the id
  have hdirection := ofDirection?_eq_none hhead (by decide)
  refine ⟨isStatement_edgeText hsource htarget, by rw [hfirst]; exact hsource, fun d s hs => ?_⟩
  obtain ⟨found, hok, hname, hname', htype, hlabel⟩ := Statement.read_of_reads (s := s)
    (by rw [hs]; exact reads_arrowStatement hsource htarget e.type e.label) (List.forall_mem_nil _)
  -- the id may be the keyword of an element, which is tried first
  obtain ⟨problem, hproblem⟩ := Statement.read_of_declines (s := s)
    (by rw [hs]; exact declines_elementDeclaration hsource e.type)
  refine ⟨addArrow d found, ?_, ?_⟩
  · unfold readStatement
    simp only [hok, hproblem]
    simp only [hs, hfirst, htitle, if_false, hdirection, List.contains_iff_mem, hskipped, hmark,
      ite_self]
  · rw [addArrow, hname, hname', htype, hlabel]
    simp only [String.ofList_toList]
    exact .edge d { ids.edge e with label := shownLabel e.label } found.source.span
      found.target.span

end

/-! ## The written lines -/

/-- An edge between output ids with its label as it is shown. -/
def shownEdge (ids : Renaming) (e : Edge) : Edge :=
  { ids.edge e with label := shownLabel e.label }

/-- The statements of a diagram between the first and the last line, each with what it says. -/
def said (d : Diagram) (direction : Direction) : List (List Char × Fact) :=
  let ids := Renaming.ofDiagram reservedWords d
  (d.title?.toList.map fun title => (titleText title, .title title)) ++
    [((directionStatement direction).toList, .direction (axis direction))] ++
    d.nodes.map (fun n => (nodeText ids n, .node { ids.node n with attributes := .empty })) ++
    d.edges.map fun e => (edgeText ids e, .edge (shownEdge ids e))

theorem lines_eq (d : Diagram) (direction : Direction) :
    lines d direction =
      "@startuml".toList :: ((said d direction).map Prod.fst ++ ["@enduml".toList]) := by
  let ids := Renaming.ofDiagram reservedWords d
  have htitle : titleLines d.title? = d.title?.toList.map titleText := by
    cases d.title? <;> rfl
  have hlines : lines d direction = ["@startuml".toList] ++ titleLines d.title? ++
      [(directionStatement direction).toList] ++ d.nodes.map (nodeLine ids) ++
      d.edges.map (edgeLine ids) ++ ["@enduml".toList] := rfl
  rw [hlines, htitle]
  simp only [said, List.map_append, List.map_map, Function.comp_def, List.map_cons,
    ← nodeLine_eq, ← edgeLine_eq, List.append_assoc, List.cons_append, List.nil_append]
  rfl

/-- **Every written statement says its fact.** -/
theorem says_of_mem_said {d : Diagram} {direction : Direction} :
    ∀ p ∈ said d direction, Says p.1 p.2 := by
  intro p hp
  rw [said, List.mem_append, List.mem_append, List.mem_append, List.mem_singleton, List.mem_map,
    List.mem_map, List.mem_map] at hp
  rcases hp with ((⟨title, -, rfl⟩ | rfl) | ⟨n, hn, rfl⟩) | ⟨e, he, rfl⟩
  · exact says_titleText title
  · exact says_directionStatement direction
  · exact says_nodeText (Renaming.isWord_apply reservedWords (Renaming.id_mem_idsOf hn))
  · have hsource := Renaming.source_mem_idsOf he
    exact says_edgeText (Renaming.isWord_apply reservedWords hsource)
      (Renaming.isWord_apply reservedWords (Renaming.target_mem_idsOf he))
      (Renaming.contains_apply reservedWords hsource)

/-- Statements are read up to the last line, behind which nothing stands. -/
theorem readStatements_concat (sourceEnd : Nat) {found : List Statement} {last : Statement}
    (hfound : ∀ s ∈ found, Text.IsWord (firstWord s.text)) (hlast : last.text = "@enduml".toList)
    (d : Draft) : readStatements sourceEnd d (found ++ [last]) = found.foldl readStatement d := by
  induction found generalizing d with
  | nil =>
    have hend : startsWithWord "@enduml" last = true := by
      rw [startsWithWord, hlast]
      decide
    rw [List.nil_append, readStatements, hend]
    rfl
  | cons s rest ih =>
    have hgoes : startsWithWord "@enduml" s = false :=
      sameLetters_enduml (hfound s List.mem_cons_self)
    rw [List.cons_append, readStatements.eq_def]
    simp only [hgoes, Bool.false_eq_true, if_false]
    exact ih (fun t ht => hfound t (List.mem_cons_of_mem s ht)) (readStatement d s)

/-- **The draft of a written source gains what was written.** -/
theorem draft_eq (d : Diagram) (direction : Direction) :
    ∃ draft, PlantUml.draft (write d direction).toList = .ok draft ∧
      Draft.GainsAll ((said d direction).map Prod.snd) {} draft := by
  have hall : ∀ line ∈ lines d direction, conventions.IsStatement line := by
    intro line hline
    rw [lines_eq, List.mem_cons, List.mem_append, List.mem_singleton, List.mem_map] at hline
    rcases hline with rfl | ⟨p, hp, rfl⟩ | rfl
    · exact Conventions.isStatement_of_plain (by decide) (by decide)
    · exact (says_of_mem_said p hp).isStatement
    · exact Conventions.isStatement_of_plain (by decide) (by decide)
  obtain ⟨hvisible, statements, hstatements, htexts⟩ := Conventions.statements_unlines tidy hall 0
  rw [lines_eq, List.map_eq_cons_iff] at htexts
  obtain ⟨first, later, rfl, hfirst, hlater⟩ := htexts
  -- the statements behind the first line are those that were written, and then the last line
  obtain ⟨found, ends, rfl, hfound, hends⟩ := List.map_eq_append_iff.1 hlater
  obtain ⟨last, rfl, hlast⟩ := List.map_eq_singleton_iff.1 hends
  have hstart : startsWithWord "@startuml" first = true := by
    rw [startsWithWord, hfirst]
    decide
  have hwords : ∀ s ∈ found, Text.IsWord (firstWord s.text) := by
    intro s hs
    have hmem : s.text ∈ (said d direction).map Prod.fst := by
      rw [← hfound]
      exact List.mem_map_of_mem hs
    obtain ⟨p, hp, htext⟩ := List.mem_map.1 hmem
    rw [← htext]
    exact (says_of_mem_said p hp).isWord
  obtain ⟨draft, hfold, hgains⟩ := Draft.gainsAll_foldl (fun d => d) readStatement
    (fun p hp d s hs => (says_of_mem_said p hp).gains d s hs) hfound {}
  refine ⟨draft, ?_, hgains⟩
  rw [write, String.toList_ofList]
  simp only [PlantUml.draft, bind, Except.bind, hvisible, hstatements, hstart, if_true,
    readStatements_concat _ hwords hlast, hfold]
  rfl

/-! ## The round trip -/

/-- The statements describe the diagram under its output ids. -/
theorem describes_said (d : Diagram) (direction : Direction) :
    Fact.Describes ((said d direction).map Prod.snd) d.title? (axis direction)
      (d.nodes.map fun n =>
        { (Renaming.ofDiagram reservedWords d).node n with attributes := .empty })
      (d.edges.map (shownEdge (Renaming.ofDiagram reservedWords d))) [] := by
  have hhead : Fact.Describes (d.title?.toList.map Fact.title ++ [Fact.direction (axis direction)])
      d.title? (axis direction) [] [] [] := by
    cases d.title? <;> exact ⟨rfl, rfl, rfl, rfl, rfl⟩
  have h := hhead.append (d.nodes.map fun n =>
    { (Renaming.ofDiagram reservedWords d).node n with attributes := .empty })
    (d.edges.map (shownEdge (Renaming.ofDiagram reservedWords d))) []
  unfold said
  simpa [Function.comp_def] using h

/-- **The PlantUML round trip.** Every valid diagram is read back from its PlantUML source under its
output ids, without attributes and with no label where the label is empty, with its title and with
the axis of the direction it was written in. -/
theorem plantUml_read_write {d : Diagram} (hvalid : d.validate = .ok ()) (direction : Direction) :
    ∃ e, read (write d direction) = .ok e ∧
      (e.nodes = d.nodes.map fun n =>
        { (Renaming.ofDiagram reservedWords d).node n with attributes := .empty }) ∧
      e.edges = d.edges.map (shownEdge (Renaming.ofDiagram reservedWords d)) ∧
      e.title? = d.title? ∧
      e.metadata.get? Diagram.directionKey =
        some (if direction.isHorizontal then "LR" else "TD") := by
  obtain ⟨draft, hdraft, hgains⟩ := draft_eq d direction
  let ids := Renaming.ofDiagram reservedWords d
  have hmap : (d.nodes.map fun n => { ids.node n with attributes := .empty }).map Node.id =
      d.ids.map ids.apply := Renaming.map_id_map fun _ => rfl
  have hends : ∀ e ∈ d.edges.map (shownEdge ids),
      e.source ∈ d.ids.map ids.apply ∧ e.target ∈ d.ids.map ids.apply := by
    intro e he
    obtain ⟨f, hf, rfl⟩ := List.mem_map.1 he
    exact Renaming.ends_map_edge hvalid ids (ids.edge f) (List.mem_map_of_mem hf)
  obtain ⟨e, hresolve, hnodes, hedges, htitle, hdirection⟩ :=
    Draft.holds_empty.resolve_gainsAll hgains (describes_said d direction)
      (by rw [hmap]; exact Renaming.nodup_map_apply reservedWords)
      (Renaming.id_ne_empty_of_mem_map reservedWords fun _ => rfl)
      (by rw [hmap]; exact hends) (List.forall_mem_nil _) (write d direction).toList
  refine ⟨e, by rw [read, hdraft]; exact hresolve, ?_, hedges, htitle, ?_⟩
  · rw [hnodes]
    exact List.map_id _
  · rw [hdirection]
    cases direction <;> rfl

/-- A diagram whose ids, labels and title look like PlantUML syntax. -/
def tangled : Diagram := .of
  [{ id := "Title", label := "\"a\" as b <<end>>", type := .start,
      attributes := ⟨[("fill", "red")], by decide⟩ },
    { id := "database", label := "<U+0041> '/ \\n\n", type := .data },
    { id := "left", label := "", type := .unspecified },
    { id := "", label := "/' @enduml", type := .decision }]
  [{ source := "database", target := "left", label := some "", type := .conditional },
    { source := "database", target := "left", label := some "  ' : \n ", type := .loopBack },
    { source := "", target := "", label := some "\t" },
    { source := "left", target := "Title" }]
  ⟨[("title", " \u00a0 ")], by decide⟩ (by decide)

theorem plantUml_read_write_tangled :
    tangled.validate = .ok () ∧
      ∃ e, read (write tangled .rightLeft) = .ok e ∧
        (e.nodes = tangled.nodes.map fun n =>
          { (Renaming.ofDiagram reservedWords tangled).node n with attributes := .empty }) ∧
        e.edges = tangled.edges.map (shownEdge (Renaming.ofDiagram reservedWords tangled)) ∧
        e.title? = tangled.title? ∧
        e.metadata.get? Diagram.directionKey =
          some (if Direction.rightLeft.isHorizontal then "LR" else "TD") :=
  ⟨by decide, plantUml_read_write (by decide) .rightLeft⟩

end Flowchart.PlantUml
