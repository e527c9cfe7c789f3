import Flowchart.D2.Reading
import Flowchart.D2.Writing
import Flowchart.Proofs.Source.Cutting
import Flowchart.Proofs.Source.Reads

/-!
# The parts of a D2 statement

The written parts of a statement are even and are read as what they were written for. A bare key is
read up to what ends it, so `SpellsKey text s` only speaks of followers in front of which nothing but
blanks would be read along. A bare value is read up to the end of its entry.

From keys and values the lemmas go up to entries, to maps and to what may follow a colon.
-/

namespace Flowchart.D2

open Conventions (Even)
open Reader (Reads)
open Text (isBlank isWordChar lower sameLetters)
open Text.Quoted (encode)

/-! ## Conventions -/

/-- Marks, quotes, brackets and separators of this notation do not interfere. -/
theorem tidy : conventions.Tidy where
  length_mark := by decide
  head_mark := by decide
  endsMark_quote := by decide
  endsMark_separator := by
    intro c hc
    simp only [Conventions.isSeparator, conventions, Bool.true_and, Bool.or_eq_true,
      decide_eq_true_eq] at hc
    rcases hc with rfl | rfl <;> decide
  endsMark_bracket := by decide
  bracket := by decide

/-- A character of a bare key. -/
def isKeyChar (c : Char) : Bool := isWordChar c || c = '-' || c = '.'

/-- The characters of bare keys mean nothing to the cutting of statements. -/
theorem isPlain_of_isKeyChar {c : Char} (h : isKeyChar c = true) : conventions.isPlain c = true :=
  Conventions.isPlain_of_class (by decide) h

/-- No blank stands in a bare key. -/
theorem isBlank_eq_false_of_isKeyChar {c : Char} (h : isKeyChar c = true) : isBlank c = false := by
  rw [isKeyChar, Bool.or_eq_true, Bool.or_eq_true, decide_eq_true_eq, decide_eq_true_eq] at h
  rcases h with (h | rfl) | rfl
  · exact Text.isBlank_eq_false_of_isWordChar h
  · decide
  · decide

/-- Word characters may stand in bare keys. -/
theorem isKeyChar_of_isWordChar {c : Char} (h : isWordChar c = true) : isKeyChar c = true := by
  rw [isKeyChar, h, Bool.true_or, Bool.true_or]

/-! ## Bare keys -/

/-- A bare key is read on as long as nothing ends it. -/
theorem bareKey_append {text rest : List Char}
    (h : ∀ s, s <:+ text → s ≠ [] → endsKey (s ++ rest) = false) :
    bareKey (text ++ rest) = text ++ bareKey rest := by
  induction text with
  | nil => rfl
  | cons c cs ih =>
    have hc := h (c :: cs) (List.suffix_refl _) (List.cons_ne_nil c cs)
    rw [List.cons_append] at hc
    rw [List.cons_append, bareKey, hc, if_neg Bool.false_ne_true,
      ih fun s hs => h s (hs.trans (List.suffix_cons c cs)), List.cons_append]

/-- No dash is doubled in the text. -/
def NoDoubleDash (text : List Char) : Prop := ¬ ∃ a b, text = a ++ '-' :: '-' :: b

/-- A text in which two dashes are not found has no two dashes in a row. -/
theorem noDoubleDash_of_breakAt? {text : List Char} (h : Text.breakAt? ['-', '-'] text = none) :
    NoDoubleDash text := by
  rintro ⟨a, b, rfl⟩
  induction a with
  | nil => simp [Text.breakAt?, List.isPrefixOf?] at h
  | cons c cs ih =>
    rw [List.cons_append, Text.breakAt?] at h
    split at h
    · simp at h
    · exact ih (by simpa using h)

/-- Nothing ends a bare key inside its characters. -/
theorem endsKey_eq_false {text rest : List Char} (htext : ∀ c ∈ text, isKeyChar c = true)
    (hdash : NoDoubleDash text) (hne : text ≠ [])
    (hrest : ∀ c ∈ rest.head?, c ≠ '-' ∧ c ≠ '>') : endsKey (text ++ rest) = false := by
  obtain ⟨c, cs, rfl⟩ := List.exists_cons_of_ne_nil hne
  have hnot : ∀ d, isKeyChar d = false → d ∉ c :: cs := by
    intro d hd hmem
    rw [htext d hmem] at hd
    exact Bool.false_ne_true hd.symm
  have hstop : [':', ';', '{', '}', '"', '\n'].contains c = false := by
    rw [Bool.eq_false_iff, ne_eq, List.contains_iff_mem]
    intro hmem
    have hno : ∀ d ∈ [':', ';', '{', '}', '"', '\n'], isKeyChar d = false := by decide
    exact hnot c (hno c hmem) List.mem_cons_self
  -- an arrow or a double dash would lie in the key or have its second character behind it
  have hpair : ∀ a b, isKeyChar a = false ∨ isKeyChar b = false ∨ (a = '-' ∧ b = '-') →
      b = '-' ∨ b = '>' → [a, b].isPrefixOf (c :: cs ++ rest) = false := by
    intro a b hclass hb
    rw [Bool.eq_false_iff, ne_eq, List.isPrefixOf_iff_prefix]
    rintro ⟨left, hleft⟩
    obtain ⟨rfl, htail⟩ : c = a ∧ cs ++ rest = b :: left := by simpa using hleft.symm
    cases cs with
    | nil =>
      have hhead := hrest b (by rw [← List.nil_append rest, htail]; rfl)
      rcases hb with rfl | rfl
      · exact hhead.1 rfl
      · exact hhead.2 rfl
    | cons d ds =>
      obtain ⟨rfl, -⟩ : d = b ∧ ds ++ rest = left := by simpa using htail
      rcases hclass with h | h | ⟨rfl, rfl⟩
      · exact hnot c h List.mem_cons_self
      · exact hnot d h (by simp)
      · exact hdash ⟨[], ds, rfl⟩
  rw [endsKey, hpair '-' '>' (by decide) (by decide), hpair '<' '-' (by decide) (by decide),
    hpair '-' '-' (by decide) (by decide)]
  simpa using hstop

/-! ## Keys -/

/-- What may follow a key: nothing that starts an arrow, and only blanks up to what ends a key. -/
structure FollowsKey (rest : List Char) : Prop where
  head : ∀ c ∈ rest.head?, c ≠ '-' ∧ c ≠ '>'
  blanks : ∀ c ∈ bareKey rest, isBlank c = true

/-- The text is even and is read as a key with the name `s`. Whether the key is quoted is as `quoted`
says. -/
structure SpellsKey (text : List Char) (s : String) (quoted : Bool → Prop) : Prop where
  isStatement : conventions.IsStatement text
  starts : Text.StartsAs isKeyChar text
  reads : ∀ rest, FollowsKey rest →
    Reads key (text ++ rest) (fun k => k.name = s ∧ quoted k.quoted) rest

/-- A quoted text spells the key that it encodes. -/
theorem spellsKey_encode (s : String) {quoted : Bool → Prop} (hquoted : quoted true) :
    SpellsKey (encode s.toList) s quoted where
  isStatement := Conventions.isStatement_encode rfl s.toList
  starts := ⟨'"', rfl, Or.inl rfl⟩
  reads rest _ := by
    unfold key
    refine Reads.lookingAt_then rfl ?_
    refine (Reader.reads_escapedString s.toList).spanned.bind fun name hname => ?_
    exact Reads.pure ⟨by rw [hname, String.ofList_toList], hquoted⟩

/-- A run of key characters without two dashes in a row spells itself. -/
theorem spellsKey_bare {text : List Char} (hne : text ≠ []) (h : ∀ c ∈ text, isKeyChar c = true)
    (hdash : NoDoubleDash text) {quoted : Bool → Prop} (hquoted : quoted false) :
    SpellsKey text (String.ofList text) quoted where
  isStatement := Conventions.isStatement_of_plain hne fun c hc =>
    ⟨isPlain_of_isKeyChar (h c hc), isBlank_eq_false_of_isKeyChar (h c hc)⟩
  starts := Text.startsAs_of_run hne h
  reads rest hrest := by
    have hkey : bareKey (text ++ rest) = text ++ bareKey rest := by
      -- a suffix of the key has key characters and no double dash, as the key has
      refine bareKey_append fun s hs hsne => ?_
      obtain ⟨t, rfl⟩ := hs
      refine endsKey_eq_false (fun c hc => h c (List.mem_append_right t hc)) ?_ hsne hrest.head
      rintro ⟨a, b, rfl⟩
      exact hdash ⟨t ++ a, b, by rw [List.append_assoc]⟩
    have hraw : Text.trimEnd (bareKey (text ++ rest)) = text := by
      rw [hkey]
      refine Text.trimEnd_append_of_blank hrest.blanks fun c hc => ?_
      exact isBlank_eq_false_of_isKeyChar (h c (List.mem_of_getLast? hc))
    unfold key
    refine Reads.lookingAt_else (Text.isPrefixOf_eq_false_of_run hne h (by decide) rest) ?_
    refine Reads.cursor fun c hc => ?_
    rw [hc, hraw, if_neg (by simpa using hne), List.drop_left]
    refine Reader.reads_moveTo.bind fun _ _ => ?_
    exact Reads.position fun stop => Reads.pure ⟨rfl, hquoted⟩

/-- A bare name that means nothing of its own at the top level. -/
def IsOrdinary (name : String) : Prop :=
  (∀ word ∈ specialKeys, sameLetters word.toList name.toList = false) ∧ '.' ∉ name.toList

/-- **The written key of a node spells its id.** -/
theorem spellsKey_nodeKey (id : String) :
    SpellsKey (nodeKey id) id fun quoted => quoted = true ∨ IsOrdinary id := by
  unfold nodeKey
  split
  · next hbare =>
    simp only [isWord, Bool.and_eq_true, List.all_eq_true, Bool.not_eq_true', List.any_eq_false,
      List.isEmpty_eq_false_iff] at hbare
    obtain ⟨⟨hne, hword⟩, hspecial⟩ := hbare
    have hno : ∀ c, isWordChar c = false → c ∉ id.toList := by
      intro c hc hmem
      rw [hword c hmem] at hc
      exact Bool.false_ne_true hc.symm
    have hordinary : IsOrdinary id :=
      ⟨fun word hmem => Bool.eq_false_iff.2 (hspecial word hmem), hno '.' (by decide)⟩
    have hdash : NoDoubleDash id.toList := by
      rintro ⟨a, b, hab⟩
      exact hno '-' (by decide) (by rw [hab]; simp)
    have h : SpellsKey id.toList (String.ofList id.toList) fun quoted =>
        quoted = true ∨ IsOrdinary id :=
      spellsKey_bare hne (fun c hc => isKeyChar_of_isWordChar (hword c hc)) hdash
        (Or.inr hordinary)
    rwa [String.ofList_toList] at h
  · exact spellsKey_encode id (Or.inl rfl)

/-- **The written key of an entry spells its key.** -/
theorem spellsKey_mapKey (name : String) : SpellsKey (mapKey name) name fun _ => True := by
  unfold mapKey
  split
  · next hbare =>
    simp only [Bool.and_eq_true, List.all_eq_true, Option.isNone_iff_eq_none, isPathPart,
      Bool.not_eq_true', List.isEmpty_eq_false_iff, Bool.or_eq_true, decide_eq_true_eq] at hbare
    obtain ⟨hparts, hdash⟩ := hbare
    have hne : name.toList ≠ [] := by
      intro hnil
      rw [hnil] at hparts
      exact (hparts [] (by decide)).1 rfl
    have hall : ∀ c ∈ name.toList, isKeyChar c = true := by
      intro c hc
      -- a dot separates two parts, any other character belongs to one of them
      by_cases hdot : c = '.'
      · rw [hdot]
        decide
      · rw [List.splitOn_eq_splitOnP] at hparts
        obtain ⟨part, hpart, hmem⟩ := Text.exists_mem_splitOnP (p := (· == '.')) hc
          (by simpa using hdot)
        rcases (hparts part hpart).2 c hmem with h | h
        · exact isKeyChar_of_isWordChar h
        · rw [h]
          decide
    have h : SpellsKey name.toList (String.ofList name.toList) fun _ => True :=
      spellsKey_bare hne hall (noDoubleDash_of_breakAt? hdash) trivial
    rwa [String.ofList_toList] at h
  · exact spellsKey_encode name trivial

/-! ## Values -/

/-- A character of a bare value. -/
def isValueChar (c : Char) : Bool := isWordChar c || c = '-'

/-- The characters of bare values may stand in keys too. -/
theorem isKeyChar_of_isValueChar {c : Char} (h : isValueChar c = true) : isKeyChar c = true := by
  rw [isKeyChar, ← isValueChar, h, Bool.true_or]

/-- No blank stands in a bare value. -/
theorem isBlank_eq_false_of_isValueChar {c : Char} (h : isValueChar c = true) :
    isBlank c = false :=
  isBlank_eq_false_of_isKeyChar (isKeyChar_of_isValueChar h)

/-- The text is even and is read as the value `v` where the entry ends. -/
structure SpellsValue (text : List Char) (v : String) : Prop where
  isStatement : conventions.IsStatement text
  starts : Text.StartsAs isValueChar text
  reads : ∀ rest : List Char, (∀ c ∈ rest.head?, c = ';' ∨ c = '}') →
    Reads value (text ++ rest) (· = v) rest

/-- A quoted value is read whatever follows it. -/
theorem reads_value_encode (v : String) (rest : List Char) :
    Reads value (encode v.toList ++ rest) (· = v) rest := by
  unfold value
  refine Reads.lookingAt_then rfl ?_
  exact (Reader.reads_escapedString v.toList).andThen (Reads.pure String.ofList_toList)

/-- A quoted text spells the value that it encodes. -/
theorem spellsValue_encode (v : String) : SpellsValue (encode v.toList) v where
  isStatement := Conventions.isStatement_encode rfl v.toList
  starts := ⟨'"', rfl, Or.inl rfl⟩
  reads rest _ := reads_value_encode v rest

/-- A run of value characters spells itself. -/
theorem spellsValue_bare (v : String) (hne : v.toList ≠ [])
    (h : ∀ c ∈ v.toList, isValueChar c = true) : SpellsValue v.toList v where
  isStatement := by
    refine Conventions.isStatement_of_plain hne fun c hc => ?_
    have hkey := isKeyChar_of_isValueChar (h c hc)
    exact ⟨isPlain_of_isKeyChar hkey, isBlank_eq_false_of_isKeyChar hkey⟩
  starts := Text.startsAs_of_run hne h
  reads rest hrest := by
    have hrun : ∀ c ∈ v.toList, (!(c = ';' || c = '\n' || c = '{' || c = '}')) = true := by
      intro c hc
      have hne : ∀ d, isValueChar d = false → c ≠ d := fun d => Text.ne_of_class (h c hc)
      simp [hne ';' (by decide), hne '\n' (by decide), hne '{' (by decide), hne '}' (by decide)]
    have htrim : Text.trim v.toList = v.toList := by
      refine Text.trim_eq_self (fun c hc => ?_) fun c hc => ?_
      · exact isBlank_eq_false_of_isValueChar (h c (List.mem_of_head? hc))
      · exact isBlank_eq_false_of_isValueChar (h c (List.mem_of_getLast? hc))
    unfold value
    refine Reads.lookingAt_else (Text.isPrefixOf_eq_false_of_run hne h (by decide) rest) ?_
    refine (Reader.reads_takeWhile hrun fun c hc => ?_).andThen ?_
    · rcases hrest c hc with rfl | rfl <;> decide
    · exact Reads.pure (by rw [htrim, String.ofList_toList])

/-! ## Entries -/

/-- The text is an entry: a spelled key, a colon and a spelled value. -/
def SpellsEntry (text : List Char) (e : Entry) : Prop :=
  ∃ name value, text = name ++ ':' :: ' ' :: value ∧ SpellsKey name e.key (fun _ => True) ∧
    SpellsValue value e.value

/-- An entry that is spelled out is one statement. -/
theorem SpellsEntry.isStatement {text : List Char} {e : Entry} (h : SpellsEntry text e) :
    conventions.IsStatement text := by
  obtain ⟨name, value, rfl, hname, hvalue⟩ := h
  exact hname.isStatement.append [':', ' '] (by decide) hvalue.isStatement

/-- An entry is never empty. -/
theorem SpellsEntry.ne_nil {text : List Char} {e : Entry} (h : SpellsEntry text e) : text ≠ [] := by
  obtain ⟨name, value, rfl, -, -⟩ := h
  simp

/-- The characters between two entries. -/
def isGap (c : Char) : Bool := isBlank c || c = ';'

/-- No key begins with what separates entries. -/
theorem isGap_eq_false_of_isKeyChar {c : Char} (h : isKeyChar c = true) : isGap c = false := by
  simp [isGap, isBlank_eq_false_of_isKeyChar h, Text.ne_of_class h (d := ';') (by decide)]

/-- A colon ends a key. -/
theorem followsKey_colon (rest : List Char) : FollowsKey (':' :: rest) where
  head := Text.head?_cons (by decide) _
  blanks := by simp [bareKey, endsKey]

/-- Where no space comes next, none is taken. -/
theorem reads_noSpaces {rest : List Char}
    (hrest : ∀ c ∈ rest.head?, (decide (c = ' ') || decide (c = '\t')) = false) :
    Reads (Reader.takeWhile fun c => c = ' ' || c = '\t') rest (· = []) rest :=
  Reader.reads_takeWhile (List.forall_mem_nil _) hrest

/-- One space is taken where no second one comes next. -/
theorem reads_space {rest : List Char}
    (hrest : ∀ c ∈ rest.head?, (decide (c = ' ') || decide (c = '\t')) = false) :
    Reads (Reader.takeWhile fun c => c = ' ' || c = '\t') (' ' :: rest) (· = [' ']) rest :=
  Reader.reads_takeWhile (List.forall_mem_singleton.2 rfl) hrest

/-- **A map is read entry by entry up to its closing brace.** -/
theorem reads_entries {items : List (List Char × Entry)} (h : ∀ p ∈ items, SpellsEntry p.1 p.2)
    {fuel : Nat} (hfuel : items.length < fuel) {gap : List Char}
    (hgap : ∀ c ∈ gap, isGap c = true) (start : Nat) (rest : List Char) :
    Reads (entries fuel none start)
      (gap ++ ([';', ' '].intercalate (items.map Prod.fst) ++ '}' :: rest))
      (· = items.map Prod.snd) rest := by
  induction items generalizing fuel gap with
  | nil =>
    obtain ⟨fuel, rfl⟩ : ∃ n, fuel = n + 1 := ⟨fuel - 1, by simp at hfuel; omega⟩
    rw [entries, List.map_nil, List.intercalate_nil, List.nil_append]
    refine (Reader.reads_takeWhile hgap (Text.head?_cons (by decide) _)).andThen ?_
    exact Reads.accept_then (Reads.pure rfl)
  | cons p items ih =>
    obtain ⟨fuel, rfl⟩ : ∃ n, fuel = n + 1 := ⟨fuel - 1, by simp at hfuel; omega⟩
    obtain ⟨name, value, htext, hname, hvalue⟩ := h p List.mem_cons_self
    -- behind the first entry stands the next gap or the closing brace
    obtain ⟨gap', hcases, hjoin⟩ := Text.exists_intercalate_cons [';', ' '] p.1 (items.map Prod.fst)
    have hgap' : ∀ c ∈ gap', isGap c = true := by
      rcases hcases with rfl | ⟨rfl, -⟩ <;> decide
    have hnext : ∀ c ∈ (gap' ++ ([';', ' '].intercalate (items.map Prod.fst) ++ '}' :: rest)).head?,
        c = ';' ∨ c = '}' := by
      rcases hcases with rfl | ⟨rfl, hnil⟩
      · exact Text.head?_cons (by decide) _
      · rw [hnil]
        exact Text.head?_cons (by decide) _
    have htail : [';', ' '].intercalate ((p :: items).map Prod.fst) ++ '}' :: rest =
        name ++ (':' :: ' ' :: (value ++
          (gap' ++ ([';', ' '].intercalate (items.map Prod.fst) ++ '}' :: rest)))) := by
      rw [List.map_cons, hjoin, htext]
      simp only [List.append_assoc, List.cons_append]
    rw [entries, htail]
    refine (Reader.reads_takeWhile hgap (hname.starts.head?_append _ (by decide)
      fun c => isGap_eq_false_of_isKeyChar)).andThen ?_
    refine Reads.accept_else (hname.starts.isPrefixOf_eq_false _ (by decide) (by decide)) ?_
    refine Reads.atEnd_else (fun hnil => hname.starts.ne_nil (List.append_eq_nil_iff.1 hnil).1) ?_
    refine Reads.position fun entryStart => ?_
    refine ((hname.reads _ (followsKey_colon _)).named _).bind fun k hk => ?_
    refine (reads_noSpaces (Text.head?_cons (by decide) _)).bind fun _ _ => ?_
    refine Reads.accept_then ?_
    refine (reads_space (hvalue.starts.head?_append _ (by decide) ?_)).bind fun _ _ => ?_
    · intro c hc
      simp [Text.ne_of_class hc (d := ' ') (by decide), Text.ne_of_class hc (d := '\t') (by decide)]
    refine Reads.position fun mapStart => ?_
    refine Reads.accept_else (hvalue.starts.isPrefixOf_eq_false _ (by decide) (by decide)) ?_
    refine (hvalue.reads _ hnext).andThen ?_
    refine (ih (fun q hq => h q (List.mem_cons_of_mem p hq)) ?_ hgap').andThen ?_
    · rw [List.length_cons] at hfuel
      omega
    · exact Reads.pure (by rw [hk.1]; rfl)

/-! ## Maps -/

variable {items : List (List Char × Entry)}

/-- A statement with a map behind it. -/
theorem isStatement_append_map {text : List Char} (htext : conventions.IsStatement text)
    (h : ∀ p ∈ items, SpellsEntry p.1 p.2) :
    conventions.IsStatement (text ++ map (items.map Prod.fst)) := by
  unfold map
  split
  · rwa [List.append_nil]
  · refine htext.append [' '] (by decide) ⟨fun due => ?_, ⟨'{', rfl, rfl⟩, ⟨'}', ?_, rfl⟩⟩
    · have hinner : Even conventions ('}' :: due) ([';', ' '].intercalate (items.map Prod.fst))
          ('}' :: due) := by
        refine Even.intercalate (Even.of_inner (by simp) (by decide)) fun text htext => ?_
        obtain ⟨p, hp, rfl⟩ := List.mem_map.1 htext
        exact (h p hp).isStatement.even _
      exact .opened rfl (hinner.append (.closed (by decide) (by decide) (.nil due)))
    · rw [← List.cons_append, List.getLast?_concat, Option.mem_def]

/-- A single blank stands in front of a map. -/
theorem dropWhile_map (entries : List (List Char)) :
    (map entries).dropWhile isBlank = (map entries).drop 1 := by
  unfold map
  split <;> rfl

/-- Behind a label the map is read, if there is one. -/
theorem reads_closing (h : ∀ p ∈ items, SpellsEntry p.1 p.2) (label : Option String) :
    Reads (do
      let c ← Reader.cursor
      if ← Reader.accept ['{'] then
        let map ← entries c.rest.length none c.pos
        return (label, map)
      else return (label, [])) ((map (items.map Prod.fst)).drop 1) (· = (label, items.map Prod.snd))
      [] := by
  refine Reads.cursor fun c hc => ?_
  cases items with
  | nil => exact Reads.accept_else rfl (Reads.pure rfl)
  | cons p rest =>
    have hne : ∀ text ∈ (p :: rest).map Prod.fst, text ≠ [] := by
      intro text htext
      obtain ⟨q, hq, rfl⟩ := List.mem_map.1 htext
      exact (h q hq).ne_nil
    have hfuel : (p :: rest).length < c.rest.length := by
      have hlen := Text.length_le_length_intercalate [';', ' '] hne
      rw [List.length_map] at hlen
      rw [hc, map, if_neg (by simp), List.drop_succ_cons, List.drop_zero]
      simp only [List.length_cons, List.length_append] at hlen ⊢
      omega
    refine Reads.accept_then ?_
    have hgap : ∀ c ∈ ([] : List Char), isGap c = true := List.forall_mem_nil _
    exact (reads_entries h hfuel hgap _ []).andThen (Reads.pure rfl)

/-- **A quoted label and a map are read behind a colon.** -/
theorem reads_body_label (h : ∀ p ∈ items, SpellsEntry p.1 p.2) (label : String) :
    Reads body (' ' :: (encode label.toList ++ map (items.map Prod.fst)))
      (· = (some label, items.map Prod.snd)) [] := by
  unfold body
  refine (Reader.reads_space (Text.head?_cons (by decide) _)).bind fun _ _ => ?_
  refine Reads.lookingAt_else rfl ?_
  refine (reads_value_encode label _).andThen ?_
  refine (Reader.reads_blanks_dropWhile _).bind fun _ _ => ?_
  rw [dropWhile_map]
  exact Reads.pure_bind (reads_closing h (some label))

/-- A map without a label is read behind a colon. -/
theorem reads_body_map (h : ∀ p ∈ items, SpellsEntry p.1 p.2) (hne : items ≠ []) :
    Reads body (map (items.map Prod.fst)) (· = (none, items.map Prod.snd)) [] := by
  have hmap : (map (items.map Prod.fst)).drop 1 =
      '{' :: ([';', ' '].intercalate (items.map Prod.fst) ++ ['}']) := by
    rw [map, if_neg (by simpa using hne), List.drop_succ_cons, List.drop_zero]
  unfold body
  refine (Reader.reads_blanks_dropWhile _).bind fun _ _ => ?_
  rw [dropWhile_map]
  refine Reads.lookingAt_then (by rw [hmap]; rfl) ?_
  exact Reads.pure_bind (reads_closing h none)

/-- A bare value that ends the statement is read behind a colon. -/
theorem reads_body_value {text : List Char} {v : String} (hvalue : SpellsValue text v) :
    Reads body (' ' :: text) (· = (some v, [])) [] := by
  have hstart : ['{'].isPrefixOf (text ++ []) = false :=
    hvalue.starts.isPrefixOf_eq_false [] (by decide) (by decide)
  have hblank := hvalue.starts.head?_append [] (q := fun c => isBlank c = false) (by decide)
    fun c => isBlank_eq_false_of_isValueChar
  have hread := hvalue.reads [] (by simp)
  rw [List.append_nil] at hstart hblank hread
  unfold body
  refine (Reader.reads_space hblank).bind fun _ _ => ?_
  refine Reads.lookingAt_else hstart ?_
  refine hread.andThen ?_
  refine (Reader.reads_noBlanks (by simp)).bind fun _ _ => ?_
  refine Reads.pure_bind ?_
  refine Reads.cursor fun c _ => ?_
  exact Reads.accept_else rfl (Reads.pure rfl)

/-! ## Declarations -/

/-- What may stand behind the keys of a declaration: nothing, or a colon and a label or a map. -/
inductive Closes : List Char → Option String → List Entry → Prop
  | nothing : Closes [] none []
  | colon {rest : List Char} {label : Option String} {entries : List Entry} :
      Reads body rest (· = (label, entries)) [] → Closes (':' :: rest) label entries

/-- What closes a declaration may follow its key. -/
theorem Closes.followsKey {text : List Char} {label : Option String} {entries : List Entry}
    (h : Closes text label entries) : FollowsKey text := by
  cases h with
  | nothing => exact ⟨by simp, by simp [bareKey]⟩
  | colon _ => exact followsKey_colon _

/-- Where no arrow follows, the declaration is closed. -/
theorem Closes.reads_links {text : List Char} {label : Option String} {entries : List Entry}
    (h : Closes text label entries) (fuel : Nat) : Reads (links (fuel + 1)) text (· = []) text := by
  have hhead : ∀ c ∈ text.head?, c = ':' := by
    cases h with
    | nothing => simp
    | colon _ => exact Text.head?_cons (q := (· = ':')) rfl _
  -- no arrow starts with a colon
  have hno : ∀ {m : Char} {ms : List Char}, m ≠ ':' → (m :: ms).isPrefixOf text = false :=
    fun hm => Text.isPrefixOf_eq_false_of_head fun c hc => (hhead c hc).trans_ne hm.symm
  unfold links
  refine (Reader.reads_noBlanks fun c hc => by rw [hhead c hc]; decide).bind fun _ _ => ?_
  refine Reads.position fun start => ?_
  refine Reads.accept_else (hno (by decide)) ?_
  refine Reads.accept_else (hno (by decide)) ?_
  refine Reads.accept_else (hno (by decide)) ?_
  refine Reads.accept_else (hno (by decide)) ?_
  exact Reads.pure rfl

/-- The reader of what closes a declaration. -/
theorem Closes.reads {text : List Char} {label : Option String} {entries : List Entry}
    (h : Closes text label entries) (first : Key) (links : List (Bool × Key)) :
    Reads (do
      if ← Reader.accept [':'] then
        let (label, map) ← body
        return ⟨first, links, label, map⟩
      else return ⟨first, links, none, []⟩) text
      (· = (⟨first, links, label, entries⟩ : Declaration)) [] := by
  cases h with
  | nothing => exact Reads.accept_else rfl (Reads.pure rfl)
  | colon hbody => exact Reads.accept_then (hbody.andThen (Reads.pure rfl))

variable {text text' tail : List Char} {s s' : String} {quoted quoted' : Bool → Prop}
  {label : Option String} {found : List Entry}

/-- **A single key is read as a shape.** -/
theorem reads_declaration_shape (hkey : SpellsKey text s quoted) (htail : Closes tail label found) :
    Reads declaration (text ++ tail)
      (fun decl => ∃ k : Key, (k.name = s ∧ quoted k.quoted) ∧
        decl = ⟨k, [], label, found⟩) [] := by
  unfold declaration
  refine ((hkey.reads _ htail.followsKey).named _).bind fun k hk => ?_
  refine Reads.cursor fun c _ => ?_
  refine (htail.reads_links c.rest.length).andThen ?_
  exact (htail.reads k []).mono fun decl hdecl => ⟨k, hk, hdecl⟩

/-- An arrow and a key are read as the one link of a connection. -/
theorem reads_links_cons (hkey : SpellsKey text s quoted) (htail : Closes tail label found)
    (fuel : Nat) :
    Reads (links (fuel + 2)) (" -> ".toList ++ (text ++ tail))
      (fun rest => ∃ k, (k.name = s ∧ quoted k.quoted) ∧ rest = [(false, k)]) tail := by
  unfold links
  refine (Reader.reads_space (Text.head?_cons (by decide) _)).bind fun _ _ => ?_
  refine Reads.position fun start => ?_
  refine Reads.accept_else rfl ?_
  refine Reads.accept_then ?_
  rw [links.linkTo]
  refine (Reader.reads_space (hkey.starts.head?_append _ (by decide)
    fun c => isBlank_eq_false_of_isKeyChar)).bind fun _ _ => ?_
  refine ((hkey.reads _ htail.followsKey).named _).bind fun k hk => ?_
  exact (htail.reads_links fuel).andThen (Reads.pure ⟨k, hk, rfl⟩)

/-- **Two keys with an arrow between them are read as a connection.** -/
theorem reads_declaration_connection (hkey : SpellsKey text s quoted)
    (hkey' : SpellsKey text' s' quoted') (htail : Closes tail label found) :
    Reads declaration (text ++ (" -> ".toList ++ (text' ++ tail)))
      (fun decl => ∃ k k' : Key, (k.name = s ∧ quoted k.quoted) ∧
        (k'.name = s' ∧ quoted' k'.quoted) ∧
        decl = ⟨k, [(false, k')], label, found⟩) [] := by
  have harrow : FollowsKey (" -> ".toList ++ (text' ++ tail)) :=
    ⟨Text.head?_cons (by decide) _, by simp [bareKey, endsKey, isBlank]⟩
  unfold declaration
  refine ((hkey.reads _ harrow).named _).bind fun k hk => ?_
  refine Reads.cursor fun c hc => ?_
  rw [hc]
  refine (reads_links_cons hkey' htail _).bind fun rest hrest => ?_
  obtain ⟨k', hk', rfl⟩ := hrest
  exact (htail.reads k [(false, k')]).mono fun decl hdecl => ⟨k, k', hk, hk', hdecl⟩

end Flowchart.D2
