import Flowchart.PlantUml.Reading
import Flowchart.PlantUml.Writing
import Flowchart.Proofs.PlantUml.Label
import Flowchart.Proofs.Source.Cutting
import Flowchart.Proofs.Source.Reads

/-!
# The parts of a PlantUML statement

A label holds no quote, apostrophe or line break, so a comment starts nowhere in a written statement,
and an element is read with its keyword, label, id and stereotype. An arrow is read up to the blank
behind it. **A line that starts with an arrow behind its first word is no element**, whatever word
that is.
-/

namespace Flowchart.PlantUml

open Reader (Reads Declines)
open Text (isBlank isWordChar)

/-! ## Conventions -/

theorem tidy : conventions.Tidy where
  length_mark := by decide
  head_mark := by decide
  endsMark_quote := by decide
  endsMark_separator := by
    intro c hc
    simp only [Conventions.isSeparator, conventions, Bool.false_and, Bool.or_false,
      decide_eq_true_eq] at hc
    rw [hc]
    decide
  endsMark_bracket := by decide
  bracket := by decide

theorem isStatement_word {word : List Char} (h : Text.IsWord word) :
    conventions.IsStatement word :=
  Conventions.isStatement_of_isWord (by decide) h

/-- What labels avoid has a meaning for comments, strings and statements; nothing else has one. -/
theorem isPlain_of_not_mem_avoided {c : Char} (h : c ∉ Label.avoided) :
    conventions.isPlain c = true := by
  have hsub : ∀ d ∈ conventions.specials, d ∈ Label.avoided := by decide
  exact Conventions.isPlain_of_not_mem_specials fun hmem => h (hsub c hmem)

/-- A label in quotes. -/
theorem isStatement_quoted (label : List Char) :
    conventions.IsStatement ('"' :: (Label.encode label ++ ['"'])) where
  even due := by
    refine Conventions.Even.of_quoted (Conventions.staysQuoted_of_forall rfl fun c hc => ?_)
    have hno := Label.not_mem_avoided_of_mem_encode c hc
    exact ⟨fun h => hno (by rw [h]; decide), fun h => hno (by rw [h]; decide)⟩
  first := ⟨'"', rfl, rfl⟩
  last := ⟨'"', by rw [← List.cons_append, List.getLast?_concat, Option.mem_def], rfl⟩

/-- A label without quotes that is not empty. -/
theorem isStatement_encodePadded {label : List Char} (h : label ≠ []) :
    conventions.IsStatement (Label.encodePadded label) := by
  have hne := Label.encodePadded_ne_nil h
  refine ⟨fun due => Conventions.Even.of_plain fun c hc => ?_, ?_, ?_⟩
  · exact isPlain_of_not_mem_avoided (Label.not_mem_avoided_of_mem_encodePadded c hc)
  · exact ⟨_, List.head?_eq_some_head hne,
      Label.isBlank_head?_encodePadded label _ (List.head?_eq_some_head hne)⟩
  · exact ⟨_, List.getLast?_eq_some_getLast hne,
      Label.isBlank_getLast?_encodePadded label _ (List.getLast?_eq_some_getLast hne)⟩

/-! ## Elements -/

/-- The stereotype of a node type with its brackets, and the blank in front. -/
def stereotypeText (t : NodeType) : List Char :=
  match stereotype? t with
  | some name => " <<".toList ++ name.toList ++ ">>".toList
  | none => []

theorem isWord_element (t : NodeType) : Text.IsWord (element t).toList := by
  cases t <;> exact ⟨by decide, by decide⟩

/-- The word `as` between blanks. -/
theorem reads_asWord {rest : List Char} (hrest : ∀ c ∈ rest.head?, isBlank c = false) :
    Reads asWord (" as ".toList ++ rest) (fun _ => True) rest := by
  have hkeyword := Reader.reads_keyword "as" ⟨by decide, by decide⟩ rest
  unfold asWord
  refine (Reader.reads_someSpace (Text.head?_cons (by decide) _)).bind fun _ _ => ?_
  exact hkeyword.andThen (Reader.reads_someSpace hrest)

/-- A label in quotes and the id behind it. -/
theorem reads_idAndLabel (label : List Char) {word rest : List Char} (hword : Text.IsWord word)
    (hrest : ∀ c ∈ rest.head?, isWordChar c = false) :
    Reads idAndLabel ('"' :: (Label.encode label ++ '"' :: (" as ".toList ++ (word ++ rest))))
      (fun p => p.1.value = word ∧ p.2 = some (Label.encode label)) rest := by
  have hquote : ∀ c ∈ Label.encode label, c ≠ '"' := by
    rintro c hc rfl
    exact Label.not_mem_avoided_of_mem_encode _ hc (by decide)
  have hblank : ∀ c ∈ (word ++ rest).head?, isBlank c = false := hword.isBlank_head?_append rest
  have hid : Reads elementId (word ++ rest) (fun id => id.value = word) rest :=
    ((Reader.reads_identifier hword hrest).named _).spanned
  unfold idAndLabel
  refine Reads.lookingAt_then rfl ?_
  refine (Reader.reads_rawString hquote).andThen ?_
  refine (reads_asWord hblank).bind fun _ _ => ?_
  exact hid.bind fun id hid => Reads.pure ⟨hid, rfl⟩

theorem declines_color : Declines color [] := by
  unfold color
  refine Declines.accept_else rfl ?_
  exact Reader.declines_expected _

/-- **The stereotype of a node type is read**, if it has one. -/
theorem reads_stereotype (t : NodeType) :
    ∃ left, Reads Reader.blanks (stereotypeText t) (fun _ => True) left ∧
      Reads (Reader.optional stereotype) left (· = (stereotype? t).map String.toList) [] := by
  unfold stereotypeText
  cases ht : stereotype? t with
  | none =>
    have hdeclines : Declines stereotype [] := by
      unfold stereotype
      refine Declines.cursor fun c hc => ?_
      rw [hc]
      exact Reader.declines_expected _
    exact ⟨[], Reader.reads_noBlanks (by simp), hdeclines.optional⟩
  | some name =>
    have hname : (∀ c ∈ name.toList, c ≠ '>') ∧ Text.trim name.toList = name.toList := by
      cases t <;> cases ht <;> decide
    have hbreak : Text.breakAt? ['>', '>'] (name.toList ++ ['>', '>']) = some (name.toList, []) :=
      Text.breakAt?_append hname.1 []
    have hread : Reads stereotype ("<<".toList ++ (name.toList ++ ">>".toList))
        (· = name.toList) [] := by
      unfold stereotype
      refine Reads.cursor fun c hc => ?_
      have hstrip : ['<', '<'].isPrefixOf? c.rest = some (name.toList ++ ['>', '>']) := by
        rw [hc]
        exact Text.isPrefixOf?_append ['<', '<'] _
      simp only [hstrip, hbreak]
      exact Reader.reads_moveTo.bind fun _ _ => Reads.pure hname.2
    -- the blank in front belongs to what is read before
    refine ⟨"<<".toList ++ (name.toList ++ ">>".toList), ?_, ?_⟩
    · exact Reader.reads_space (Text.head?_cons (by decide) _)
    · refine hread.optional.mono fun found hfound => ?_
      obtain ⟨a, rfl, rfl⟩ := hfound
      rfl

/-- **A written element is read with its keyword, label, id and stereotype.** -/
theorem reads_elementDeclaration (t : NodeType) (label : List Char) {word : List Char}
    (hword : Text.IsWord word) :
    Reads elementDeclaration ((element t).toList ++ ' ' ::
        ('"' :: (Label.encode label ++ '"' :: (" as ".toList ++ (word ++ stereotypeText t)))))
      (fun e => e.keyword = (element t).toList ∧ e.id.value = word ∧
        e.label = some (Label.encode label) ∧ e.stereotype = (stereotype? t).map String.toList)
      [] := by
  have hend : ∀ c ∈ (stereotypeText t).head?, isWordChar c = false := by
    cases t <;> decide
  obtain ⟨left, hblanks, hstereotype⟩ := reads_stereotype t
  unfold elementDeclaration
  refine ((Reader.reads_identifier (isWord_element t) (Text.head?_cons (by decide) _)).named
    _).andThen ?_
  refine (Reader.reads_someSpace (Text.head?_cons (by decide) _)).bind fun _ _ => ?_
  refine (reads_idAndLabel label hword hend).bind fun p hp => ?_
  refine hblanks.bind fun _ _ => ?_
  refine hstereotype.andThen ?_
  refine (Reader.reads_noBlanks (by simp)).bind fun _ _ => ?_
  refine declines_color.optional.andThen ?_
  exact Reads.pure ⟨rfl, hp.1, hp.2, rfl⟩

/-- **No element is read in front of an arrow.** -/
theorem declines_elementDeclaration {word rest : List Char} (hword : Text.IsWord word)
    (t : EdgeType) : Declines elementDeclaration (word ++ ' ' :: (arrow t ++ rest)) := by
  have hblank : ∀ c ∈ (arrow t ++ rest).head?, isBlank c = false := by
    cases t <;> exact Text.head?_cons (by decide) _
  have hend : ∀ c ∈ (arrow t ++ rest).head?, isWordChar c = false := by
    cases t <;> exact Text.head?_cons (by decide) _
  have hquote : ['"'].isPrefixOf (arrow t ++ rest) = false := by
    cases t <;> rfl
  have hid : Declines elementId (arrow t ++ rest) :=
    ((Reader.declines_identifier hend).named _).spanned
  -- an arrow starts neither with a quote nor with a word
  have hlabel : Declines idAndLabel (arrow t ++ rest) := by
    unfold idAndLabel
    refine Declines.lookingAt_else hquote ?_
    exact hid.bind
  unfold elementDeclaration
  refine ((Reader.reads_identifier hword (Text.head?_cons (by decide) _)).named
    _).bind_declines fun _ _ => ?_
  refine (Reader.reads_someSpace hblank).bind_declines fun _ _ => ?_
  exact hlabel.bind

/-! ## Arrows -/

/-- The scan of a written arrow ends at the blank. -/
theorem arrowRun_arrow (t : EdgeType) (rest : List Char) :
    arrowRun (.strokes false) (arrow t ++ ' ' :: rest) = arrow t := by
  cases t with
  | plain =>
    have hplain : arrow .plain = ['-', '-', '>'] := rfl
    rw [hplain]
    simp [arrowRun]
  | conditional =>
    have hbold : arrow .conditional = ['-', '[', 'b', 'o', 'l', 'd', ']', '-', '>'] := rfl
    rw [hbold]
    simp [arrowRun]
  | loopBack =>
    have hdotted : arrow .loopBack = ['.', '.', '>'] := rfl
    rw [hdotted]
    simp [arrowRun]

/-- **An arrow is read up to the blank behind it.** -/
theorem reads_arrowToken (t : EdgeType) (rest : List Char) :
    Reads arrowToken (arrow t ++ ' ' :: rest) (· = arrow t) (' ' :: rest) := by
  have hstroke : ((arrow t).contains '-' || (arrow t).contains '.') = true := by
    cases t <;> decide
  unfold arrowToken
  refine Reads.cursor fun c hc => ?_
  simp only [hc, arrowRun_arrow, hstroke, if_true, List.drop_left]
  exact Reader.reads_moveTo.bind fun _ _ => Reads.pure rfl

/-- The label as it is read back: the empty label is not written. -/
def shownLabel (label : Option String) : Option String := label.filter fun l => l ≠ ""

/-- Either no label is written and none is shown, or the label is written behind a colon. -/
theorem edgeLabel_cases (label : Option String) :
    (edgeLabel label = [] ∧ shownLabel label = none) ∨
      ∃ l, l ≠ "" ∧ edgeLabel label = ' ' :: ':' :: ' ' :: Label.encodePadded l.toList ∧
        shownLabel label = some l := by
  cases label with
  | none => exact Or.inl ⟨rfl, rfl⟩
  | some l =>
    by_cases h : l = ""
    · refine Or.inl ⟨?_, ?_⟩
      · rw [edgeLabel, if_pos h]
      · rw [shownLabel, Option.filter_some, if_neg (by simpa using h)]
    · refine Or.inr ⟨l, h, ?_, ?_⟩
      · rw [edgeLabel, if_neg h]
        rfl
      · rw [shownLabel, Option.filter_some, if_pos (by simpa using h)]

/-- Without a colon there is no label. -/
theorem reads_arrowLabel_none : Reads arrowLabel [] (· = none) [] := by
  unfold arrowLabel
  refine Reads.accept_else rfl ?_
  exact Reads.pure rfl

/-- **A label behind a colon is read**, whatever blanks it starts and ends with. -/
theorem reads_arrowLabel_some {label : String} (h : label ≠ "") :
    Reads arrowLabel (':' :: ' ' :: Label.encodePadded label.toList) (· = some label) [] := by
  have htrim : Text.trim (' ' :: Label.encodePadded label.toList) =
      Label.encodePadded label.toList :=
    Text.trim_indented (List.forall_mem_singleton.2 rfl)
      (Label.isBlank_head?_encodePadded label.toList)
      (Label.isBlank_getLast?_encodePadded label.toList)
  have hne : label.toList.isEmpty = false := by
    rw [List.isEmpty_eq_false_iff]
    simpa using h
  unfold arrowLabel
  refine Reads.accept_then ?_
  refine Reader.reads_takeAll.andThen ?_
  simp only [htrim, Label.decode_encodePadded, hne, Bool.false_eq_true, if_false,
    String.ofList_toList]
  exact Reads.pure rfl

/-- What is left behind the target of an arrow is its label. -/
theorem reads_edgeLabel (label : Option String) :
    ∃ left, Reads Reader.blanks (edgeLabel label) (fun _ => True) left ∧
      Reads arrowLabel left (· = shownLabel label) [] := by
  rcases edgeLabel_cases label with ⟨hwritten, hshown⟩ | ⟨l, hne, hwritten, hshown⟩
  · rw [hwritten, hshown]
    exact ⟨[], Reader.reads_noBlanks (by simp), reads_arrowLabel_none⟩
  · rw [hwritten, hshown]
    exact ⟨':' :: ' ' :: Label.encodePadded l.toList,
      Reader.reads_space (Text.head?_cons (by decide) _), reads_arrowLabel_some hne⟩

/-- **A written arrow is read with its ends, its edge type and its label.** -/
theorem reads_arrowStatement {word word' : List Char} (hword : Text.IsWord word)
    (hword' : Text.IsWord word') (t : EdgeType) (label : Option String) :
    Reads arrowStatement (word ++ ' ' :: (arrow t ++ ' ' :: (word' ++ edgeLabel label)))
      (fun a => a.source.value = word ∧ a.target.value = word' ∧ a.type = t ∧
        a.label = shownLabel label) [] := by
  have harrow : ∀ c ∈ (arrow t ++ ' ' :: (word' ++ edgeLabel label)).head?, isBlank c = false := by
    cases t <;> exact Text.head?_cons (by decide) _
  have hstart : ∀ c ∈ (word' ++ edgeLabel label).head?, isBlank c = false :=
    hword'.isBlank_head?_append _
  have hend : ∀ c ∈ (edgeLabel label).head?, isWordChar c = false := by
    rcases edgeLabel_cases label with ⟨h, -⟩ | ⟨_, -, h, -⟩
    · rw [h]
      simp
    · rw [h]
      exact Text.head?_cons (by decide) _
  have hknown : readArrow? (arrow t) = some (t, false) := by
    cases t <;> decide
  obtain ⟨left, hblanks, hlabel⟩ := reads_edgeLabel label
  unfold arrowStatement
  refine ((Reader.reads_identifier hword (Text.head?_cons (by decide) _)).named
    _).spanned.bind fun first hfirst => ?_
  refine (Reader.reads_space harrow).bind fun _ _ => ?_
  refine Reads.position fun start => ?_
  refine ((reads_arrowToken t _).named _).andThen ?_
  simp only [hknown]
  refine (Reader.reads_space hstart).bind fun _ _ => ?_
  refine ((Reader.reads_identifier hword' hend).named _).spanned.bind fun second hsecond => ?_
  refine hblanks.bind fun _ _ => ?_
  refine hlabel.andThen ?_
  simp only [Bool.false_eq_true, if_false]
  exact Reads.pure ⟨hfirst, hsecond, rfl, rfl⟩

end Flowchart.PlantUml
