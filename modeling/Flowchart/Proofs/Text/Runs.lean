import Flowchart.Text.Basic
import Mathlib

/-!
# Runs, marks and lines

What the small operations on lists of characters give on a text that is put together from known
parts. The writers put texts together and the readers take them apart, so these lemmas come in pairs
with the functions of `Text.Basic`:

* a run of characters of a class ends where a character of another class stands;
* trimming leaves a text alone that has no blanks at its ends;
* the first occurrence of a mark in `before ++ mark ++ after` is the one that was put there;
* lines and joined parts are cut apart again.
-/

namespace Flowchart.Text

/-! ## Deciding -/

/-- What holds of all characters of a text is decided along the text, not by trying all characters. -/
instance (priority := 10000) decidableForallMemList (p : Char → Prop) [DecidablePred p]
    (cs : List Char) : Decidable (∀ c ∈ cs, p c) :=
  List.decidableBAll p cs

/-- What holds of the character of an option is decided by looking at it. -/
instance (priority := 10000) decidableForallMemOption (p : Char → Prop) [DecidablePred p] :
    (o : Option Char) → Decidable (∀ c ∈ o, p c)
  | none => isTrue fun _ h => absurd h (Option.not_mem_none _)
  | some c => decidable_of_iff (p c) (by simp)

/-! ## Runs of a class -/

variable {p : Char → Bool} {a b : List Char}

/-- Characters of different classes are different. -/
theorem ne_of_class {c d : Char} (hc : p c = true) (hd : p d = false) : c ≠ d := by
  rintro rfl
  rw [hc] at hd
  exact Bool.false_ne_true hd.symm

/-- What holds of the first character holds of the head of the text. -/
theorem head?_cons {q : Char → Prop} {c : Char} (h : q c) (cs : List Char) :
    ∀ d ∈ (c :: cs).head?, q d := by
  intro d hd
  obtain rfl : c = d := by simpa using hd
  exact h

/-- What holds of the first characters of two texts holds of the head of both together. -/
theorem forall_head?_append {q : Char → Prop} (ha : ∀ c ∈ a.head?, q c) (hb : ∀ c ∈ b.head?, q c) :
    ∀ c ∈ (a ++ b).head?, q c := by
  cases a with
  | nil => exact hb
  | cons c cs => exact ha

/-- The last character of two pieces has a property that the last characters of both have. -/
theorem forall_getLast?_append {q : Char → Prop} (ha : ∀ c ∈ a.getLast?, q c)
    (hb : ∀ c ∈ b.getLast?, q c) : ∀ c ∈ (a ++ b).getLast?, q c := by
  intro c hc
  rw [List.getLast?_append, Option.mem_def, Option.or_eq_some_iff] at hc
  rcases hc with hc | ⟨-, hc⟩
  · exact hb c hc
  · exact ha c hc

/-- A run ends in front of a character of another class. -/
theorem takeWhile_append_of_ends (ha : ∀ c ∈ a, p c = true) (hb : ∀ c ∈ b.head?, p c = false) :
    (a ++ b).takeWhile p = a := by
  rw [List.takeWhile_append_of_pos ha]
  cases b with
  | nil => simp
  | cons c cs => simp [hb c rfl]

/-- Behind a run of its own class a text is dropped up to where the run ends. -/
theorem dropWhile_append_of_ends (ha : ∀ c ∈ a, p c = true) (hb : ∀ c ∈ b.head?, p c = false) :
    (a ++ b).dropWhile p = b := by
  rw [List.dropWhile_append_of_pos ha]
  cases b with
  | nil => rfl
  | cons c cs => rw [List.dropWhile_cons_of_neg (by simp [hb c rfl])]

/-! ## Blanks and words -/

/-- The code points of the blank characters. -/
def blankCodes : List Nat :=
  [9, 10, 11, 12, 13, 0x20, 0x85, 0xA0, 0x1680, 0x2000, 0x2001, 0x2002, 0x2003, 0x2004, 0x2005,
    0x2006, 0x2007, 0x2008, 0x2009, 0x200A, 0x2028, 0x2029, 0x202F, 0x205F, 0x3000]

/-- The blanks are known by their codes. -/
theorem mem_blankCodes_of_isBlank {c : Char} (h : isBlank c = true) : c.toNat ∈ blankCodes := by
  simp only [isBlank, Bool.or_eq_true, Bool.and_eq_true, decide_eq_true_eq, beq_iff_eq] at h
  simp only [blankCodes, List.mem_cons, List.not_mem_nil, or_false]
  omega

/-- An ASCII letter or digit lies between the digit zero and the letter `z`. -/
theorem toNat_of_isAlphanum {c : Char} (h : c.isAlphanum = true) :
    48 ≤ c.toNat ∧ c.toNat ≤ 122 := by
  simp only [Char.isAlphanum, Char.isAlpha, Char.isUpper, Char.isLower, Char.isDigit,
    Bool.or_eq_true, Bool.and_eq_true, decide_eq_true_eq, ge_iff_le, UInt32.le_iff_toNat_le] at h
  -- the bounds as numbers, for `omega`
  have hval : c.toNat = c.val.toNat := rfl
  have hA : 'A'.val.toNat = 65 := rfl
  have hZ : 'Z'.val.toNat = 90 := rfl
  have ha : 'a'.val.toNat = 97 := rfl
  have hz : 'z'.val.toNat = 122 := rfl
  have h0 : '0'.val.toNat = 48 := rfl
  have h9 : '9'.val.toNat = 57 := rfl
  omega

/-- No blank stands in the table of alphanumeric characters, and none can be an ASCII letter or
digit. -/
theorem not_mem_ranges_of_mem_blankCodes :
    ∀ n ∈ blankCodes, (alphanumericRanges.any fun r => r.1 ≤ n && n ≤ r.2) = false ∧
      n ≠ '_'.toNat ∧ (n < 48 ∨ 122 < n) := by
  decide +kernel

/-- **No blank is part of a word.** -/
theorem isWordChar_eq_false_of_isBlank {c : Char} (h : isBlank c = true) :
    isWordChar c = false := by
  obtain ⟨hrange, hunder, hascii⟩ :=
    not_mem_ranges_of_mem_blankCodes c.toNat (mem_blankCodes_of_isBlank h)
  have hne : c ≠ '_' := fun hc => hunder (hc ▸ rfl)
  have halnum : c.isAlphanum = false := by
    rw [Bool.eq_false_iff]
    intro hc
    have hbounds := toNat_of_isAlphanum hc
    omega
  simp [isWordChar, isAlphanumeric, halnum, hrange, hne]

/-- A word character is no blank. -/
theorem isBlank_eq_false_of_isWordChar {c : Char} (h : isWordChar c = true) :
    isBlank c = false := by
  rw [Bool.eq_false_iff]
  intro hc
  rw [isWordChar_eq_false_of_isBlank hc] at h
  exact Bool.false_ne_true h

/-! ## Trimming -/

/-- Where no blank stands in front, nothing is trimmed there. -/
theorem trimStart_eq_self {cs : List Char} (h : ∀ c ∈ cs.head?, isBlank c = false) :
    trimStart cs = cs := by
  unfold trimStart
  exact dropWhile_append_of_ends (a := []) (by simp) h

/-- Where no blank stands at the end, nothing is trimmed there. -/
theorem trimEnd_eq_self {cs : List Char} (h : ∀ c ∈ cs.getLast?, isBlank c = false) :
    trimEnd cs = cs := by
  have hrev : trimStart cs.reverse = cs.reverse :=
    trimStart_eq_self (by rw [List.head?_reverse]; exact h)
  rw [trimEnd, ← trimStart, hrev, List.reverse_reverse]

/-- A text without blanks at its ends is not trimmed at all. -/
theorem trim_eq_self {cs : List Char} (hfirst : ∀ c ∈ cs.head?, isBlank c = false)
    (hlast : ∀ c ∈ cs.getLast?, isBlank c = false) : trim cs = cs := by
  rw [trim, trimStart_eq_self hfirst, trimEnd_eq_self hlast]

/-- Blanks in front do not change the trimmed text. -/
theorem trim_append_of_blank {blank cs : List Char} (h : ∀ c ∈ blank, isBlank c = true) :
    trim (blank ++ cs) = trim cs := by
  rw [trim, trim, trimStart, List.dropWhile_append_of_pos h, trimStart]

/-- An indented text trims to itself. -/
theorem trim_indented {blank cs : List Char} (h : ∀ c ∈ blank, isBlank c = true)
    (hfirst : ∀ c ∈ cs.head?, isBlank c = false) (hlast : ∀ c ∈ cs.getLast?, isBlank c = false) :
    trim (blank ++ cs) = cs := by
  rw [trim_append_of_blank h, trim_eq_self hfirst hlast]

/-- Blanks at the end are dropped. -/
theorem trimEnd_append_of_blank {cs blank : List Char} (h : ∀ c ∈ blank, isBlank c = true)
    (hlast : ∀ c ∈ cs.getLast?, isBlank c = false) : trimEnd (cs ++ blank) = cs := by
  have hrev : trimStart (cs ++ blank).reverse = trimStart cs.reverse := by
    rw [List.reverse_append, trimStart, List.dropWhile_append_of_pos (by simpa using h), trimStart]
  rw [trimEnd, ← trimStart, hrev]
  exact trimEnd_eq_self hlast

/-- A line feed behind a text without blanks at its ends is trimmed. -/
theorem trim_line {cs : List Char} (hne : cs ≠ []) (hfirst : ∀ c ∈ cs.head?, isBlank c = false)
    (hlast : ∀ c ∈ cs.getLast?, isBlank c = false) : trim (cs ++ ['\n']) = cs := by
  rw [trim, trimStart_eq_self]
  · exact trimEnd_append_of_blank (List.forall_mem_singleton.2 rfl) hlast
  · rw [List.head?_append, List.head?_eq_some_head hne, Option.some_or,
      ← List.head?_eq_some_head hne]
    exact hfirst

/-- What is trimmed in front does not begin with a blank. -/
theorem head?_trimStart (cs : List Char) : ∀ c ∈ (trimStart cs).head?, isBlank c = false := by
  intro c hc
  have h := List.head?_dropWhile_not isBlank cs
  rw [trimStart] at hc
  rw [Option.mem_def.1 hc] at h
  exact h

/-- What is trimmed at its end does not end with one. -/
theorem getLast?_trimEnd (cs : List Char) : ∀ c ∈ (trimEnd cs).getLast?, isBlank c = false := by
  intro c hc
  rw [trimEnd, List.getLast?_reverse] at hc
  exact head?_trimStart cs.reverse c hc

/-- What is dropped at the end are blanks. -/
theorem exists_trimEnd_append (cs : List Char) :
    ∃ blank, (∀ c ∈ blank, isBlank c = true) ∧ trimEnd cs ++ blank = cs := by
  refine ⟨(cs.reverse.takeWhile isBlank).reverse, ?_, ?_⟩
  · intro c hc
    exact List.mem_takeWhile_imp (List.mem_reverse.1 hc)
  · rw [trimEnd, ← List.reverse_append, List.takeWhile_append_dropWhile, List.reverse_reverse]

/-- Trimming the end leaves the front of a text. -/
theorem prefix_trimEnd (cs : List Char) : trimEnd cs <+: cs := by
  obtain ⟨blank, -, heq⟩ := exists_trimEnd_append cs
  exact ⟨blank, heq⟩

/-- Trimming drops blanks on both sides. -/
theorem exists_trim_append (cs : List Char) :
    ∃ blank, (∀ c ∈ blank, isBlank c = true) ∧ cs = cs.takeWhile isBlank ++ (trim cs ++ blank) := by
  obtain ⟨blank, hblank, heq⟩ := exists_trimEnd_append (trimStart cs)
  refine ⟨blank, hblank, ?_⟩
  rw [trim, heq, trimStart, List.takeWhile_append_dropWhile]

/-- A trimmed text does not begin with a blank. -/
theorem head?_trim (cs : List Char) : ∀ c ∈ (trim cs).head?, isBlank c = false := by
  intro c hc
  -- trimming the end leaves the front of the text as it is
  obtain ⟨blank, -, heq⟩ := exists_trimEnd_append (trimStart cs)
  apply head?_trimStart cs
  rw [← heq]
  rw [trim] at hc
  rw [Option.mem_def] at hc ⊢
  rw [List.head?_append, hc, Option.some_or]

/-- A trimmed text does not end with a blank. -/
theorem getLast?_trim (cs : List Char) : ∀ c ∈ (trim cs).getLast?, isBlank c = false :=
  getLast?_trimEnd (trimStart cs)

/-! ## Marks -/

/-- A text that starts with another character does not start with the mark. -/
theorem isPrefixOf?_eq_none_of_head {m : Char} {ms cs : List Char}
    (h : ∀ c ∈ cs.head?, c ≠ m) : (m :: ms).isPrefixOf? cs = none := by
  cases cs with
  | nil => rfl
  | cons c cs => rw [List.isPrefixOf?, beq_false_of_ne (Ne.symm (h c rfl)), if_neg Bool.false_ne_true]

/-- A text that starts with another character does not start with the mark, as a test. -/
theorem isPrefixOf_eq_false_of_head {m : Char} {ms cs : List Char} (h : ∀ c ∈ cs.head?, c ≠ m) :
    (m :: ms).isPrefixOf cs = false := by
  rw [← List.isSome_isPrefixOf?_eq_isPrefixOf, isPrefixOf?_eq_none_of_head h, Option.isSome_none]

/-- What stands behind the mark is what follows it. -/
@[simp]
theorem isPrefixOf?_append (mark rest : List Char) : mark.isPrefixOf? (mark ++ rest) = some rest :=
  List.isPrefixOf?_eq_some_iff_append_eq.2 rfl

/-- A run of a class does not start with a mark whose first character is of another class. -/
theorem isPrefixOf_eq_false_of_run (hne : a ≠ []) (ha : ∀ c ∈ a, p c = true) {m : Char}
    {ms : List Char} (hm : p m = false) (rest : List Char) :
    (m :: ms).isPrefixOf (a ++ rest) = false := by
  refine isPrefixOf_eq_false_of_head fun c hc hcm => ?_
  rw [List.head?_append, List.head?_eq_some_head hne, Option.some_or, Option.mem_some] at hc
  rw [← hcm, ← hc, ha _ (List.head_mem hne)] at hm
  exact Bool.false_ne_true hm.symm

/-- The text around the first mark, with the mark, is the whole text. -/
theorem eq_of_breakAt? {mark cs before after : List Char}
    (h : breakAt? mark cs = some (before, after)) : cs = before ++ mark ++ after := by
  induction cs generalizing before with
  | nil => simp [breakAt?] at h
  | cons c cs ih =>
    rw [breakAt?] at h
    split at h
    · next rest hrest =>
      obtain ⟨rfl, rfl⟩ : [] = before ∧ rest = after := by simpa using h
      simpa using (List.isPrefixOf?_eq_some_iff_append_eq.1 hrest).symm
    · obtain ⟨found, hfound, hpair⟩ := Option.map_eq_some_iff.1 h
      obtain ⟨rfl, rfl⟩ : c :: found.1 = before ∧ found.2 = after := by simpa using hpair
      simpa using congrArg (c :: ·) (ih hfound)

/-- **The mark is found where it was put** if its first character does not stand before it. -/
theorem breakAt?_append {m : Char} {ms before : List Char} (h : ∀ c ∈ before, c ≠ m)
    (after : List Char) :
    breakAt? (m :: ms) (before ++ (m :: ms ++ after)) = some (before, after) := by
  induction before with
  | nil => rw [List.nil_append, List.cons_append, breakAt?, ← List.cons_append, isPrefixOf?_append]
  | cons c cs ih =>
    have hc : (m :: ms).isPrefixOf? (c :: (cs ++ (m :: ms ++ after))) = none :=
      isPrefixOf?_eq_none_of_head (by simpa using h c (by simp))
    rw [List.cons_append, breakAt?, hc, ih fun d hd => h d (List.mem_cons_of_mem c hd)]
    rfl

/-- A mark at the very end is its last occurrence. -/
theorem breakAtLast?_append_singleton (mark : Char) (cs : List Char) :
    breakAtLast? mark (cs ++ [mark]) = some (cs, []) := by
  induction cs with
  | nil => simp [breakAtLast?]
  | cons c cs ih => rw [List.cons_append, breakAtLast?, ih]

/-! ## Texts that are quoted or bare -/

/-- The text starts with a quote or with a character of the class `p`. -/
def StartsAs (p : Char → Bool) (cs : List Char) : Prop := ∃ c ∈ cs.head?, c = '"' ∨ p c = true

/-- A run of a class starts as one. -/
theorem startsAs_of_run (hne : a ≠ []) (ha : ∀ c ∈ a, p c = true) : StartsAs p a :=
  ⟨a.head hne, List.head?_eq_some_head hne, Or.inr (ha _ (List.head_mem hne))⟩

namespace StartsAs

/-- What starts with a character of a class is not empty. -/
theorem ne_nil (h : StartsAs p a) : a ≠ [] := by
  obtain ⟨c, hc, -⟩ := h
  rintro rfl
  simp at hc

/-- Neither a quote nor the class is met where something else is expected. -/
theorem head?_append (h : StartsAs p a) (rest : List Char) {q : Char → Prop} (hquote : q '"')
    (hq : ∀ c, p c = true → q c) : ∀ c ∈ (a ++ rest).head?, q c := by
  obtain ⟨d, hd, hclass⟩ := h
  rw [List.head?_append, Option.mem_def.1 hd, Option.some_or]
  intro c hc
  obtain rfl : d = c := by simpa using hc
  rcases hclass with rfl | hd
  · exact hquote
  · exact hq d hd

/-- A mark of another class is not met where such a text starts. -/
theorem isPrefixOf_eq_false (h : StartsAs p a) (rest : List Char) {m : Char} {ms : List Char}
    (hm : p m = false) (hquote : m ≠ '"') : (m :: ms).isPrefixOf (a ++ rest) = false :=
  isPrefixOf_eq_false_of_head (h.head?_append rest hquote.symm fun _ hc => ne_of_class hc hm)

end StartsAs

/-! ## Lines -/

@[simp]
theorem unlines_nil : unlines [] = [] := rfl

@[simp]
theorem unlines_cons (line : List Char) (ls : List (List Char)) :
    unlines (line :: ls) = line ++ '\n' :: unlines ls := by
  simp [unlines]

/-- The lines of two lists make up two texts, one behind the other. -/
@[simp]
theorem unlines_append (ls ms : List (List Char)) : unlines (ls ++ ms) = unlines ls ++ unlines ms := by
  simp [unlines]

/-- **Lines keep their ends**, so they make up the text that they are cut from. -/
theorem flatten_lines (cs : List Char) : (lines cs).flatten = cs := by
  induction cs with
  | nil => rfl
  | cons c cs ih =>
    unfold lines
    split
    · rw [List.flatten_cons, ih, List.singleton_append]
    -- the character joins the first line of the rest, if there is one
    · cases hl : lines cs with
      | nil => rw [hl] at ih; simp [← ih]
      | cons line rest => rw [hl] at ih; simp [← ih]

/-- A line is cut off at its line feed. -/
theorem lines_append {line : List Char} (h : ∀ c ∈ line, c ≠ '\n') (rest : List Char) :
    lines (line ++ '\n' :: rest) = (line ++ ['\n']) :: lines rest := by
  induction line with
  | nil => rw [List.nil_append, lines, if_pos rfl, List.nil_append]
  | cons c cs ih =>
    rw [List.cons_append, lines, if_neg (h c List.mem_cons_self),
      ih fun d hd => h d (List.mem_cons_of_mem c hd)]
    rfl

/-! ## Parts and separators -/

/-- Behind the first part stands the separator, or nothing where no other part follows. -/
theorem exists_intercalate_cons (separator part : List Char) (parts : List (List Char)) :
    ∃ gap, (gap = separator ∨ (gap = [] ∧ parts = [])) ∧
      separator.intercalate (part :: parts) = part ++ (gap ++ separator.intercalate parts) := by
  cases parts with
  | nil => exact ⟨[], Or.inr ⟨rfl, rfl⟩, by simp⟩
  | cons next rest => exact ⟨separator, Or.inl rfl, by simp⟩

/-- A joined text holds the characters of its parts and of the separator. -/
theorem mem_of_mem_intercalate {separator : List Char} {c : Char} {parts : List (List Char)}
    (h : c ∈ separator.intercalate parts) : c ∈ separator ∨ ∃ part ∈ parts, c ∈ part := by
  induction parts with
  | nil => simp at h
  | cons part rest ih =>
    cases rest with
    | nil => exact Or.inr ⟨part, by simp, by simpa using h⟩
    | cons next rest =>
      rw [List.intercalate_cons_cons, List.mem_append, List.mem_append] at h
      rcases h with (h | h) | h
      · exact Or.inr ⟨part, by simp, h⟩
      · exact Or.inl h
      · rcases ih h with hsep | ⟨found, hmem, hc⟩
        · exact Or.inl hsep
        · exact Or.inr ⟨found, List.mem_cons_of_mem part hmem, hc⟩

/-- What stands in a part stands in the whole. -/
theorem mem_intercalate_of_mem {separator part : List Char} {parts : List (List Char)} {c : Char}
    (hpart : part ∈ parts) (hc : c ∈ part) : c ∈ separator.intercalate parts := by
  induction parts with
  | nil => simp at hpart
  | cons first rest ih =>
    cases rest with
    | nil =>
      obtain rfl : part = first := by simpa using hpart
      simpa using hc
    | cons next rest =>
      rw [List.intercalate_cons_cons, List.mem_append, List.mem_append]
      rcases List.mem_cons.1 hpart with rfl | hrest
      · exact Or.inl (Or.inl hc)
      · exact Or.inr (ih hrest)

/-- A text of parts that are not empty has at least one character for each part. -/
theorem length_le_length_intercalate (separator : List Char) {parts : List (List Char)}
    (h : ∀ part ∈ parts, part ≠ []) : parts.length ≤ (separator.intercalate parts).length := by
  induction parts with
  | nil => simp
  | cons part rest ih =>
    have hpart : 0 < part.length := List.length_pos_iff.2 (h part (by simp))
    cases rest with
    | nil => rw [List.intercalate_singleton]; exact hpart
    | cons next rest =>
      have hrest := ih fun p hp => h p (List.mem_cons_of_mem part hp)
      rw [List.intercalate_cons_cons, List.length_append, List.length_append, List.length_cons]
      omega

/-! ## Words -/

/-- A character at which a text is not split stays in one of the parts. -/
theorem exists_mem_splitOnP {cs : List Char} {c : Char} (hmem : c ∈ cs) (hc : p c = false) :
    ∃ part ∈ cs.splitOnP p, c ∈ part := by
  induction cs with
  | nil => simp at hmem
  | cons d ds ih =>
    rw [List.splitOnP_cons_eq_if_modifyHead]
    -- the text is split at `d`, or `d` joins the first part of the rest
    rcases List.mem_cons.1 hmem with rfl | hds
    · rw [if_neg (by simp [hc])]
      cases hs : ds.splitOnP p with
      | nil => exact absurd hs (List.splitOnP_ne_nil p ds)
      | cons part rest => exact ⟨c :: part, by simp, by simp⟩
    · obtain ⟨part, hpart, hcp⟩ := ih hds
      split
      · exact ⟨part, List.mem_cons_of_mem _ hpart, hcp⟩
      · cases hs : ds.splitOnP p with
        | nil => exact absurd hs (List.splitOnP_ne_nil p ds)
        | cons first rest =>
          rw [hs] at hpart
          rcases List.mem_cons.1 hpart with rfl | hrest
          · exact ⟨d :: part, by simp, List.mem_cons_of_mem d hcp⟩
          · exact ⟨part, by simp [hrest], hcp⟩

/-- A character that is not blank stays in the words of the text. -/
theorem mem_intercalate_words {separator cs : List Char} {c : Char} (hmem : c ∈ cs)
    (hc : isBlank c = false) : c ∈ separator.intercalate (words cs) := by
  obtain ⟨word, hword, hcw⟩ := exists_mem_splitOnP hmem hc
  refine mem_intercalate_of_mem ?_ hcw
  rw [words, List.mem_filter]
  exact ⟨hword, by cases word with | nil => simp at hcw | cons => rfl⟩

/-- A text that can be read as one word. -/
structure IsWord (cs : List Char) : Prop where
  ne_nil : cs ≠ []
  isWordChar : ∀ c ∈ cs, Text.isWordChar c = true

namespace IsWord

variable {word : List Char}

/-- No blank stands in a word. -/
theorem isBlank_eq_false (h : IsWord word) : ∀ c ∈ word, isBlank c = false :=
  fun c hc => isBlank_eq_false_of_isWordChar (h.isWordChar c hc)

/-- A word is not one of the characters that no word has. -/
theorem ne_of_mem (h : IsWord word) {c d : Char} (hc : c ∈ word)
    (hd : Text.isWordChar d = false) : c ≠ d :=
  ne_of_class (h.isWordChar c hc) hd

/-- A text that begins with a word does not begin with a blank. -/
theorem isBlank_head?_append (h : IsWord word) (rest : List Char) :
    ∀ c ∈ (word ++ rest).head?, isBlank c = false := by
  cases word with
  | nil => exact absurd rfl h.ne_nil
  | cons c cs => exact head?_cons (h.isBlank_eq_false c List.mem_cons_self) _

/-- The first word of a text that starts with a word and a blank. -/
theorem firstWord_append (h : IsWord word) {rest : List Char}
    (hrest : ∀ c ∈ rest.head?, isBlank c = true) : firstWord (word ++ rest) = word := by
  rw [firstWord, trimStart_eq_self (h.isBlank_head?_append rest)]
  exact takeWhile_append_of_ends (by simpa using h.isBlank_eq_false) (by simpa using hrest)

end IsWord

/-! ## Letter case -/

/-- Comparing letters up to their case is symmetric. -/
theorem sameLetters_comm (a b : List Char) : sameLetters a b = sameLetters b a := by
  rw [sameLetters, sameLetters, Bool.beq_comm]

end Flowchart.Text
