import Flowchart.Dot.Reading
import Flowchart.Dot.Writing
import Flowchart.Proofs.Source.Cutting
import Flowchart.Proofs.Source.Reads

/-!
# The parts of a DOT statement

The written parts of a statement are even and are read as what they were written for. `Spells text s`
says that `text` is read as the id `s` wherever no further character of a word follows: a quoted text
spells every string, and a bare one itself.

From ids the lemmas go up to attributes, to lists of attributes and to the three forms of a written
statement: an assignment, a node and an edge.
-/

namespace Flowchart.Dot

open Conventions (Even)
open Reader (Reads Declines)
open Text (isBlank isWordChar sameLetters)
open Text.Quoted (encode)

/-! ## Conventions -/

/-- Marks, quotes, brackets and separators of this notation do not interfere. -/
theorem tidy : conventions.Tidy where
  length_mark := by decide
  head_mark := by decide
  endsMark_quote := by decide
  endsMark_separator := by
    intro c hc
    simp only [Conventions.isSeparator, conventions, Bool.true_and, Bool.or_eq_true,
      decide_eq_true_eq] at hc
    rcases hc with rfl | rfl <;> decide
  endsMark_bracket := by decide
  bracket := by decide

/-- A character of an id without quotes. -/
def isIdChar (c : Char) : Bool := isWordChar c || c = '.'

theorem isPlain_of_isIdChar {c : Char} (h : isIdChar c = true) : conventions.isPlain c = true :=
  Conventions.isPlain_of_class (by decide) h

theorem isBlank_eq_false_of_isIdChar {c : Char} (h : isIdChar c = true) : isBlank c = false := by
  rw [isIdChar, Bool.or_eq_true, decide_eq_true_eq] at h
  rcases h with h | rfl
  · exact Text.isBlank_eq_false_of_isWordChar h
  · decide

theorem isIdChar_of_continuesBareId {c : Char} (h : continuesBareId c = true) :
    isIdChar c = true := by
  rw [continuesBareId, Bool.or_eq_true, decide_eq_true_eq] at h
  rcases h with h | rfl
  · simp [isIdChar, isWordChar, Text.isAlphanumeric_of_isAlphanum h]
  · decide

/-! ## Ids -/

/-- The text is even and is read as the id `s` where no character of a word follows. -/
structure Spells (text : List Char) (s : String) : Prop where
  isStatement : conventions.IsStatement text
  starts : Text.StartsAs isIdChar text
  reads : ∀ rest : List Char, (∀ c ∈ rest.head?, isIdChar c = false) →
    Reads id (text ++ rest) (· = s) rest

/-- A quoted text spells the id that it encodes. -/
theorem spells_encode (s : String) : Spells (encode s.toList) s where
  isStatement := Conventions.isStatement_encode rfl s.toList
  starts := ⟨'"', rfl, Or.inl rfl⟩
  reads rest _ := by
    unfold id
    refine Reads.lookingAt_then rfl ?_
    refine (Reader.reads_escapedString s.toList).andThen ?_
    exact Reads.pure String.ofList_toList

/-- A run of id characters spells itself. -/
theorem spells_bare {text : List Char} (hne : text ≠ []) (h : ∀ c ∈ text, isIdChar c = true) :
    Spells text (String.ofList text) where
  isStatement := Conventions.isStatement_of_plain hne fun c hc =>
    ⟨isPlain_of_isIdChar (h c hc), isBlank_eq_false_of_isIdChar (h c hc)⟩
  starts := Text.startsAs_of_run hne h
  reads rest hrest := by
    unfold id
    refine Reads.lookingAt_else (Text.isPrefixOf_eq_false_of_run hne h (by decide) rest) ?_
    refine Reads.lookingAt_else (Text.isPrefixOf_eq_false_of_run hne h (by decide) rest) ?_
    refine ((Reader.reads_takeAtLeast (List.length_pos_iff.2 hne) h hrest).named _).andThen ?_
    exact Reads.pure rfl

/-- **A written id spells its string.** -/
theorem spells_writtenId (s : String) : Spells (writtenId s) s := by
  unfold writtenId
  split
  · next hbare =>
    simp only [isBareId, Bool.and_eq_true, List.all_eq_true] at hbare
    obtain ⟨⟨hhead, hall⟩, -⟩ := hbare
    have hne : s.toList ≠ [] := fun hnil => by simp [hnil] at hhead
    have hspells := spells_bare hne fun c hc => isIdChar_of_continuesBareId (hall c hc)
    rwa [String.ofList_toList] at hspells
  · exact spells_encode s

/-! ## Attributes -/

/-- The text is an attribute: a spelled name, an equals sign and a spelled value. -/
def SpellsAttribute (text : List Char) (a : Attribute) : Prop :=
  ∃ name value, text = name ++ '=' :: value ∧ Spells name a.1 ∧ Spells value a.2

/-- The characters between two attributes. -/
def isGap (c : Char) : Bool := isBlank c || c = ',' || c = ';'

theorem isGap_eq_false_of_isIdChar {c : Char} (h : isIdChar c = true) : isGap c = false := by
  simp [isGap, isBlank_eq_false_of_isIdChar h, Text.ne_of_class h (d := ',') (by decide),
    Text.ne_of_class h (d := ';') (by decide)]

/-- **A list of attributes is read attribute by attribute up to its closing bracket.** -/
theorem reads_attributes {items : List (List Char × Attribute)}
    (h : ∀ p ∈ items, SpellsAttribute p.1 p.2) {fuel : Nat} (hfuel : items.length < fuel)
    {gap : List Char} (hgap : ∀ c ∈ gap, isGap c = true) (start : Nat) (rest : List Char) :
    Reads (attributes fuel start)
      (gap ++ ([',', ' '].intercalate (items.map Prod.fst) ++ ']' :: rest))
      (· = items.map Prod.snd) rest := by
  induction items generalizing fuel gap with
  | nil =>
    obtain ⟨fuel, rfl⟩ : ∃ n, fuel = n + 1 := ⟨fuel - 1, by simp at hfuel; omega⟩
    rw [attributes, List.map_nil, List.intercalate_nil, List.nil_append]
    refine (Reader.reads_takeWhile hgap (Text.head?_cons (by decide) _)).andThen ?_
    exact Reads.accept_then (Reads.pure rfl)
  | cons p items ih =>
    obtain ⟨fuel, rfl⟩ : ∃ n, fuel = n + 1 := ⟨fuel - 1, by simp at hfuel; omega⟩
    obtain ⟨name, value, htext, hname, hvalue⟩ := h p List.mem_cons_self
    -- behind the first attribute stands the next gap or the closing bracket
    obtain ⟨gap', hcases, hjoin⟩ := Text.exists_intercalate_cons [',', ' '] p.1 (items.map Prod.fst)
    have hgap' : ∀ c ∈ gap', isGap c = true := by
      rcases hcases with rfl | ⟨rfl, -⟩ <;> decide
    have hnext : ∀ c ∈ (gap' ++ ([',', ' '].intercalate (items.map Prod.fst) ++ ']' :: rest)).head?,
        isIdChar c = false := by
      rcases hcases with rfl | ⟨rfl, hnil⟩
      · exact Text.head?_cons (by decide) _
      · rw [hnil]
        exact Text.head?_cons (by decide) _
    have htail : [',', ' '].intercalate ((p :: items).map Prod.fst) ++ ']' :: rest =
        name ++ ('=' :: (value ++
          (gap' ++ ([',', ' '].intercalate (items.map Prod.fst) ++ ']' :: rest)))) := by
      rw [List.map_cons, hjoin, htext]
      simp only [List.append_assoc, List.cons_append]
    rw [attributes, htail]
    refine (Reader.reads_takeWhile hgap (hname.starts.head?_append _ (by decide)
      fun c => isGap_eq_false_of_isIdChar)).andThen ?_
    refine Reads.accept_else (hname.starts.isPrefixOf_eq_false (m := ']') _ (by decide) (by decide)) ?_
    refine Reads.atEnd_else (fun hnil => hname.starts.ne_nil (List.append_eq_nil_iff.1 hnil).1) ?_
    refine ((hname.reads _ (Text.head?_cons (by decide) _)).named _).andThen ?_
    refine (Reader.reads_noBlanks (Text.head?_cons (by decide) _)).bind fun _ _ => ?_
    refine Reads.accept_then ?_
    refine (Reader.reads_noBlanks (hvalue.starts.head?_append _ (by decide)
      fun c => isBlank_eq_false_of_isIdChar)).bind fun _ _ => ?_
    refine ((hvalue.reads _ hnext).named _).andThen ?_
    refine (ih (fun q hq => h q (List.mem_cons_of_mem p hq)) ?_ hgap').andThen ?_
    · rw [List.length_cons] at hfuel
      omega
    · exact Reads.pure rfl

theorem SpellsAttribute.ne_nil {text : List Char} {a : Attribute} (h : SpellsAttribute text a) :
    text ≠ [] := by
  obtain ⟨name, value, rfl, -, -⟩ := h
  simp

/-- An attribute that is spelled out is one statement. -/
theorem SpellsAttribute.isStatement {text : List Char} {a : Attribute} (h : SpellsAttribute text a) :
    conventions.IsStatement text := by
  obtain ⟨name, value, rfl, hname, hvalue⟩ := h
  exact hname.isStatement.append _ (List.forall_mem_singleton.2 rfl) hvalue.isStatement

/-! ## Lists of attributes -/

/-- Behind a statement: nothing, or a blank and a list of attributes. -/
def attributePart (items : List (List Char × Attribute)) : List Char :=
  if items.isEmpty then [] else ' ' :: attributeList (items.map Prod.fst)

variable {items : List (List Char × Attribute)}

/-- A list of attributes is one statement. -/
theorem isStatement_attributeList (h : ∀ p ∈ items, SpellsAttribute p.1 p.2) :
    conventions.IsStatement (attributeList (items.map Prod.fst)) where
  even due := by
    have hinner : Even conventions (']' :: due) ([',', ' '].intercalate (items.map Prod.fst))
        (']' :: due) := by
      refine Even.intercalate (Even.of_plain (by decide)) fun text htext => ?_
      obtain ⟨p, hp, rfl⟩ := List.mem_map.1 htext
      exact (h p hp).isStatement.even _
    exact .opened rfl (hinner.append (.closed (by decide) (by decide) (.nil due)))
  first := ⟨'[', rfl, rfl⟩
  last := ⟨']', by
    rw [attributeList, ← List.cons_append, List.getLast?_concat, Option.mem_def], rfl⟩

/-- A statement with attributes behind it. -/
theorem isStatement_append_attributePart {text : List Char} (htext : conventions.IsStatement text)
    (h : ∀ p ∈ items, SpellsAttribute p.1 p.2) :
    conventions.IsStatement (text ++ attributePart items) := by
  unfold attributePart
  split
  · rwa [List.append_nil]
  · exact htext.append _ (List.forall_mem_singleton.2 rfl) (isStatement_attributeList h)

/-- **A list of attributes is read back**, item by item. -/
theorem reads_attributeLists (h : ∀ p ∈ items, SpellsAttribute p.1 p.2) :
    Reads attributeLists (attributeList (items.map Prod.fst)) (· = items.map Prod.snd) [] := by
  have hbody : Reads attributeListBody (attributeList (items.map Prod.fst))
      (· = items.map Prod.snd) [] := by
    unfold attributeListBody
    refine Reads.cursor fun c hc => ?_
    refine Reads.accept_then ?_
    have hne : ∀ text ∈ items.map Prod.fst, text ≠ [] := by
      intro text htext
      obtain ⟨p, hp, rfl⟩ := List.mem_map.1 htext
      exact (h p hp).ne_nil
    have hlen := Text.length_le_length_intercalate [',', ' '] hne
    have hgap : ∀ c ∈ ([] : List Char), isGap c = true := by simp
    refine reads_attributes h ?_ hgap _ []
    rw [hc, attributeList, List.length_cons, List.length_append]
    rw [List.length_map] at hlen
    omega
  unfold attributeLists
  refine hbody.andThen ?_
  refine Reads.cursor fun c _ => ?_
  have hmore : Reads (moreAttributeLists (c.rest.length + 1)) [] (· = []) [] := by
    unfold moreAttributeLists
    refine (Reader.reads_noBlanks (by simp)).bind fun _ _ => ?_
    exact Reads.lookingAt_else rfl (Reads.pure rfl)
  refine hmore.andThen ?_
  exact Reads.pure (List.append_nil _)

/-! ## Chains -/

/-- Where no arrow follows, the chain ends in front of the attributes. -/
theorem reads_links_nil (items : List (List Char × Attribute)) (fuel : Nat) :
    Reads (links (fuel + 1)) (attributePart items) (· = []) ((attributePart items).drop 1) := by
  have hend : ∃ blank, (∀ c ∈ blank, isBlank c = true) ∧
      attributePart items = blank ++ (attributePart items).drop 1 := by
    unfold attributePart
    split
    · exact ⟨[], by simp, rfl⟩
    · exact ⟨[' '], by decide, rfl⟩
  have hhead : ∀ c ∈ ((attributePart items).drop 1).head?, c = '[' := by
    unfold attributePart
    split
    · simp
    · exact Text.head?_cons (q := (· = '[')) rfl _
  obtain ⟨blank, hblank, heq⟩ := hend
  -- no arrow starts with a bracket
  have hno : ∀ {m : Char} {ms : List Char}, m ≠ '[' →
      (m :: ms).isPrefixOf ((attributePart items).drop 1) = false := by
    intro m ms hm
    exact Text.isPrefixOf_eq_false_of_head fun c hc => (hhead c hc).trans_ne hm.symm
  unfold links
  generalize (attributePart items).drop 1 = rest at *
  rw [heq]
  refine (Reader.reads_blanks hblank fun c hc => by rw [hhead c hc]; decide).bind fun _ _ => ?_
  refine Reads.position fun start => ?_
  refine Reads.accept_else (hno (by decide)) ?_
  refine Reads.accept_else (hno (by decide)) ?_
  exact Reads.pure rfl

/-- Behind the ids of a chain the attributes are read, if there are any. -/
theorem reads_closing (h : ∀ p ∈ items, SpellsAttribute p.1 p.2)
    {f : List Attribute → Reader BodyStatement} {P : BodyStatement → Prop}
    (hf : Reads (f (items.map Prod.snd)) [] P []) :
    Reads (do
      if ← Reader.lookingAt ['['] then
        let attributes ← attributeLists
        f attributes
      else
        let attributes ← pure []
        f attributes) ((attributePart items).drop 1) P [] := by
  unfold attributePart
  cases items with
  | nil => exact Reads.lookingAt_else rfl hf
  | cons p rest =>
    refine Reads.lookingAt_then rfl ?_
    exact (reads_attributeLists h).andThen hf

/-- An id that is spelled out is read where no further id character follows. -/
theorem reads_nodeId {text : List Char} {s : String} (h : Spells text s) {rest : List Char}
    (hrest : ∀ c ∈ rest.head?, isIdChar c = false) :
    Reads nodeId (text ++ rest) (fun id => id.value = s) rest := by
  unfold nodeId
  exact ((h.reads rest hrest).named _).spanned

/-- What follows an id in a written statement is no part of the id. -/
theorem isIdChar_attributePart (items : List (List Char × Attribute)) :
    ∀ c ∈ (attributePart items).head?, isIdChar c = false := by
  unfold attributePart
  split
  · simp
  · exact Text.head?_cons (by decide) _

/-- **A single id with attributes is read as a node.** -/
theorem reads_chain_node {text : List Char} {s : String} (hid : Spells text s)
    (h : ∀ p ∈ items, SpellsAttribute p.1 p.2) :
    Reads chain (text ++ attributePart items)
      (fun statement => ∃ first, first.value = s ∧
        statement = .chain first [] (items.map Prod.snd)) [] := by
  unfold chain
  refine (reads_nodeId hid (isIdChar_attributePart items)).bind fun first hfirst => ?_
  refine Reads.cursor fun c _ => ?_
  refine (reads_links_nil items c.rest.length).andThen ?_
  exact reads_closing h (Reads.pure ⟨first, hfirst, rfl⟩)

/-- An arrow and an id are read as the one link of an edge. -/
theorem reads_links_cons {text : List Char} {s : String} (hid : Spells text s)
    (items : List (List Char × Attribute)) (fuel : Nat) :
    Reads (links (fuel + 2)) (" -> ".toList ++ (text ++ attributePart items))
      (fun rest => ∃ second, second.value = s ∧ rest = [second]) ((attributePart items).drop 1) := by
  unfold links
  refine (Reader.reads_space (Text.head?_cons (by decide) _)).bind fun _ _ => ?_
  refine Reads.position fun start => ?_
  refine Reads.accept_then ?_
  refine (Reader.reads_space (hid.starts.head?_append _ (by decide)
    fun c => isBlank_eq_false_of_isIdChar)).bind fun _ _ => ?_
  refine (reads_nodeId hid (isIdChar_attributePart items)).bind fun second hsecond => ?_
  refine (reads_links_nil items fuel).andThen ?_
  exact Reads.pure ⟨second, hsecond, rfl⟩

/-- **Two ids with an arrow between them are read as an edge.** -/
theorem reads_chain_edge {text text' : List Char} {s s' : String} (hid : Spells text s)
    (hid' : Spells text' s') (h : ∀ p ∈ items, SpellsAttribute p.1 p.2) :
    Reads chain (text ++ (" -> ".toList ++ (text' ++ attributePart items)))
      (fun statement => ∃ first second, first.value = s ∧ second.value = s' ∧
        statement = .chain first [second] (items.map Prod.snd)) [] := by
  unfold chain
  refine (reads_nodeId hid (Text.head?_cons (by decide) _)).bind fun first hfirst => ?_
  refine Reads.cursor fun c hc => ?_
  rw [hc]
  refine (reads_links_cons hid' items _).bind fun rest hrest => ?_
  obtain ⟨second, hsecond, rfl⟩ := hrest
  exact reads_closing h (Reads.pure ⟨first, second, hfirst, hsecond, rfl⟩)

/-! ## Alternatives -/

/-- A written id does not start with a keyword. -/
theorem sameLetters_writtenId (s : String) {rest : List Char}
    (hrest : ∀ c ∈ rest.head?, isIdChar c = false) :
    ∀ word ∈ keywords,
      sameLetters word.toList ((writtenId s ++ rest).takeWhile isWordChar) = false := by
  have hnext : ∀ c ∈ rest.head?, isWordChar c = false := by
    intro c hc
    have hid := hrest c hc
    rw [isIdChar, Bool.or_eq_false_iff] at hid
    exact hid.1
  unfold writtenId
  split
  -- a bare id is a word of its own and no keyword
  · next hbare =>
    simp only [isBareId, Bool.and_eq_true, List.all_eq_true, Bool.not_eq_true',
      List.any_eq_false] at hbare
    obtain ⟨⟨-, hall⟩, hkeyword⟩ := hbare
    have hword : ∀ c ∈ s.toList, isWordChar c = true := by
      intro c hc
      have hcont := hall c hc
      rw [continuesBareId, Bool.or_eq_true] at hcont
      rcases hcont with h | h
      · rw [isWordChar, Text.isAlphanumeric_of_isAlphanum h, Bool.true_or]
      · simp [isWordChar, of_decide_eq_true h]
    intro word hmem
    rw [Text.takeWhile_append_of_ends hword hnext]
    exact Bool.eq_false_iff.2 (hkeyword word hmem)
  -- no word starts with a quote
  · rw [encode, List.cons_append, List.takeWhile_cons_of_neg (by decide)]
    decide

/-- No defaults are read where a written id stands. -/
theorem declines_defaults (s : String) {rest : List Char}
    (hrest : ∀ c ∈ rest.head?, isIdChar c = false) : Declines defaults (writtenId s ++ rest) := by
  have howner : ∀ owner : Owner, Declines (defaultsFor owner) (writtenId s ++ rest) := by
    intro owner
    have hmem : owner.keyword ∈ keywords := by cases owner <;> decide
    unfold defaultsFor
    refine (Reader.declines_keyword (Or.inr ?_)).bind
    rw [Text.sameLetters_comm]
    exact sameLetters_writtenId s hrest _ hmem
  unfold defaults
  exact ((howner .graph).or ((howner .node).or (howner .edge))).bind

/-- No assignment is read where no equals sign follows the id. -/
theorem declines_assignment {text : List Char} {s : String} (hid : Spells text s)
    {rest : List Char} (hrest : ∀ c ∈ rest.head?, isIdChar c = false)
    (hequals : ∀ c ∈ (rest.dropWhile isBlank).head?, c ≠ '=') :
    Declines assignment (text ++ rest) := by
  unfold assignment
  refine (hid.reads _ hrest).bind_declines fun name _ => ?_
  refine (Reader.reads_blanks_dropWhile rest).bind_declines fun _ _ => ?_
  refine Declines.accept_else (Text.isPrefixOf_eq_false_of_head hequals) ?_
  exact fun pos => ⟨[], ⟨pos, rest.dropWhile isBlank⟩, rfl⟩

/-- **An id, an equals sign and an id are read as an assignment.** -/
theorem reads_assignment {text value : List Char} {s v : String} (hid : Spells text s)
    (hvalue : Spells value v) :
    Reads assignment (text ++ '=' :: value) (· = .assignment s v) [] := by
  unfold assignment
  refine (hid.reads _ (Text.head?_cons (by decide) _)).andThen ?_
  refine (Reader.reads_noBlanks (Text.head?_cons (by decide) _)).bind fun _ _ => ?_
  refine Reads.accept_then ?_
  have hread := hvalue.reads [] (by simp)
  have hhead := hvalue.starts.head?_append [] (q := fun c => isBlank c = false) (by decide)
    fun c => isBlank_eq_false_of_isIdChar
  rw [List.append_nil] at hread hhead
  refine (Reader.reads_noBlanks hhead).bind fun _ _ => ?_
  exact hread.andThen (Reads.pure rfl)

end Flowchart.Dot
