import Flowchart.PlantUml.Label
import Flowchart.Proofs.Text.Numeral
import Flowchart.Proofs.Text.Runs

/-!
# PlantUML labels are read as they were written

Each character is written as itself, as its code point or, the line feed, as two characters. What is
written for a character depends on the character after it only where a `<` stands before a `U`. So
**decoding undoes encoding**, and no quote, apostrophe or line break stands in what is written.

Around a padded label the blanks that would be trimmed become code points. The label is cut into these
blanks and the core between them; **trimming then changes nothing**.
-/

namespace Flowchart.PlantUml.Label

open Text (isBlank)

/-! ## Code points -/

/-- The characters of a code point. -/
def codeAlphabet : List Char := ['<', 'U', '+', '>'] ++ Text.hexAlphabet

/-- A code point is written with few characters. -/
theorem mem_codeAlphabet_of_mem_codePoint {c d : Char} (h : d ∈ codePoint c) :
    d ∈ codeAlphabet := by
  rw [codePoint, List.mem_append, List.mem_append, List.mem_singleton] at h
  rcases h with (h | h) | rfl
  · revert d; decide
  · exact List.mem_append_right _ (Text.mem_hexAlphabet_of_mem_hexCode h)
  · decide

/-- What follows the less-than sign of a code point. -/
def codeTail (c : Char) : List Char := 'U' :: '+' :: (Text.hexCode c.toNat ++ ['>'])

theorem codePoint_eq (c : Char) : codePoint c = '<' :: codeTail c := rfl

/-- **A code point is read with its length.** -/
theorem codePoint?_codePoint_append (c : Char) (rest : List Char) :
    codePoint? ('<' :: (codeTail c ++ rest)) = some (c, (codeTail c).length + 1) := by
  have htext : '<' :: (codeTail c ++ rest) =
      "<U+".toList ++ (Text.hexCode c.toNat ++ '>' :: rest) := by
    rw [codeTail, List.cons_append, List.cons_append, List.append_assoc]
    rfl
  have hdigits : ∀ d ∈ Text.hexCode c.toNat, d ≠ '>' := by
    intro d hd
    have hmem := Text.mem_hexAlphabet_of_mem_hexCode hd
    rintro rfl
    revert hmem
    decide
  have hbreak : Text.breakAt? ['>'] (Text.hexCode c.toNat ++ '>' :: rest) =
      some (Text.hexCode c.toNat, rest) := Text.breakAt?_append hdigits rest
  have hlength : 3 + (Text.hexCode c.toNat).length + 1 = (codeTail c).length + 1 := by
    rw [codeTail, List.length_cons, List.length_cons, List.length_append, List.length_singleton]
    omega
  rw [htext, codePoint?, Text.isPrefixOf?_append]
  simp only [hbreak, if_pos (show _ ≤ maxDigits from Text.length_hexCode_le c),
    Text.hexadecimal?_hexCode, Option.bind_some, Text.charOfCode?_toNat, Option.map_some, hlength]

/-! ## Decoding -/

/-- Characters that were decoded before are left out. -/
theorem decodeFrom_length_append (skipped rest : List Char) :
    decodeFrom skipped.length (skipped ++ rest) = decodeFrom 0 rest := by
  induction skipped with
  | nil => rfl
  | cons c cs ih => rw [List.length_cons, List.cons_append, decodeFrom, ih]

/-- A code point is decoded to its character, whatever follows. -/
theorem decodeFrom_codePoint_append (c : Char) (rest : List Char) :
    decodeFrom 0 (codePoint c ++ rest) = c :: decodeFrom 0 rest := by
  have hskip := decodeFrom_length_append (codeTail c) rest
  have hno : ¬ ('<' = '\\' ∧ (codeTail c ++ rest).head? = some 'n') := fun h => absurd h.1 (by decide)
  rw [codePoint_eq, List.cons_append, decodeFrom, if_neg hno, codePoint?_codePoint_append]
  simp only [Nat.add_sub_cancel, hskip]

/-- So is a text of code points. -/
theorem decodeFrom_flatMap_codePoint_append (cs rest : List Char) :
    decodeFrom 0 (cs.flatMap codePoint ++ rest) = cs ++ decodeFrom 0 rest := by
  induction cs with
  | nil => rfl
  | cons c cs ih =>
    rw [List.flatMap_cons, List.append_assoc, decodeFrom_codePoint_append, ih, List.cons_append]

/-- An escaped line feed is decoded to a line feed. -/
theorem decodeFrom_feed (rest : List Char) :
    decodeFrom 0 ('\\' :: 'n' :: rest) = '\n' :: decodeFrom 0 rest := by
  rw [decodeFrom, if_pos ⟨rfl, rfl⟩, decodeFrom]

/-- A character that starts neither a line feed nor a code point stands for itself. -/
theorem decodeFrom_plain {c : Char} (hslash : c ≠ '\\') {rest : List Char}
    (hless : c = '<' → rest.head? ≠ some 'U') :
    decodeFrom 0 (c :: rest) = c :: decodeFrom 0 rest := by
  have hnone : codePoint? (c :: rest) = none := by
    have hstrip : "<U+".toList.isPrefixOf? (c :: rest) = none := by
      by_cases hc : c = '<'
      · have hhead : ∀ d ∈ rest.head?, d ≠ 'U' := by
          rintro d hd rfl
          exact hless hc hd
        have hrest : ['U', '+'].isPrefixOf? rest = none :=
          Text.isPrefixOf?_eq_none_of_head hhead
        show ('<' :: ['U', '+']).isPrefixOf? (c :: rest) = none
        rw [List.isPrefixOf?, hc, beq_self_eq_true, if_pos rfl, hrest]
      · exact Text.isPrefixOf?_eq_none_of_head (Text.head?_cons hc _)
    rw [codePoint?, hstrip]
  rw [decodeFrom, if_neg fun h => hslash h.1, hnone]

/-! ## Encoding -/

/-- The characters that may be written as code points. -/
def coded : List Char := ['"', '\\', '\'', '\r', '<']

/-- **What is written for a character**: its code point, a backslash and `n`, or itself. -/
theorem encode_cons_cases (c : Char) (cs : List Char) :
    (encode (c :: cs) = codePoint c ++ encode cs ∧ c ∈ coded) ∨
      (encode (c :: cs) = '\\' :: 'n' :: encode cs ∧ c = '\n') ∨
      (encode (c :: cs) = c :: encode cs ∧ c ∉ ['"', '\\', '\'', '\r', '\n'] ∧
        (c = '<' → cs.head? ≠ some 'U')) := by
  rw [encode.eq_def (c :: cs)]
  dsimp only
  split
  · exact Or.inl ⟨rfl, by decide⟩
  · exact Or.inl ⟨rfl, by decide⟩
  · exact Or.inl ⟨rfl, by decide⟩
  · exact Or.inl ⟨rfl, by decide⟩
  · exact Or.inr (Or.inl ⟨rfl, rfl⟩)
  · split
    · exact Or.inl ⟨rfl, by decide⟩
    · next hhead => exact Or.inr (Or.inr ⟨rfl, by decide, fun _ => hhead⟩)
  · next hquote hslash hsingle hreturn hfeed hless =>
    refine Or.inr (Or.inr ⟨rfl, ?_, fun h => absurd h hless⟩)
    simp only [List.mem_cons, List.not_mem_nil, or_false, not_or]
    exact ⟨hquote, hslash, hsingle, hreturn, hfeed⟩

/-- What is written for a character depends on the rest only where that starts with a `U`. -/
theorem encode_cons_congr (c : Char) {cs ds : List Char}
    (h : cs.head? = some 'U' ↔ ds.head? = some 'U') :
    ∃ piece, encode (c :: cs) = piece ++ encode cs ∧ encode (c :: ds) = piece ++ encode ds := by
  rw [encode.eq_def (c :: cs), encode.eq_def (c :: ds)]
  dsimp only
  refine ⟨_, rfl, ?_⟩
  simp only [h]

/-- No `U` is written in front that the label does not start with. -/
theorem head?_encode_append_ne {label rest : List Char} (hlabel : label.head? ≠ some 'U')
    (hrest : rest.head? ≠ some 'U') : (encode label ++ rest).head? ≠ some 'U' := by
  cases label with
  | nil => exact hrest
  | cons c cs =>
    rcases encode_cons_cases c cs with ⟨h, -⟩ | ⟨h, -⟩ | ⟨h, -⟩
    · rw [h, codePoint_eq]
      simp
    · rw [h]
      simp
    · rw [h]
      exact hlabel

/-- **A label is decoded to itself**, and decoding goes on behind it, unless what follows would make a
code point with it. -/
theorem decodeFrom_encode_append (label : List Char) {rest : List Char}
    (hrest : rest.head? ≠ some 'U') :
    decodeFrom 0 (encode label ++ rest) = label ++ decodeFrom 0 rest := by
  -- what follows a `<` must not complete a code point, so `rest` does not start with a `U`
  induction label with
  | nil => rfl
  | cons c cs ih =>
    rcases encode_cons_cases c cs with ⟨h, -⟩ | ⟨h, rfl⟩ | ⟨h, hplain, hless⟩
    · rw [h, List.append_assoc, decodeFrom_codePoint_append, ih, List.cons_append]
    · rw [h, List.cons_append, List.cons_append, decodeFrom_feed, ih, List.cons_append]
    · have hslash : c ≠ '\\' := by
        rintro rfl
        exact hplain (by decide)
      rw [h, List.cons_append, decodeFrom_plain hslash, ih, List.cons_append]
      exact fun hc => head?_encode_append_ne (hless hc) hrest

/-- **Decoding gives the label back.** -/
theorem decode_encode (label : List Char) : decode (encode label) = label := by
  have h : decodeFrom 0 (encode label ++ []) = label ++ decodeFrom 0 [] :=
    decodeFrom_encode_append label (by decide)
  rwa [List.append_nil, decodeFrom, List.append_nil] at h

/-- The characters that are never written. -/
def avoided : List Char := ['"', '\'', '\r', '\n']

/-- No character of a code point has to be avoided. -/
theorem not_mem_avoided_of_mem_codePoint {c d : Char} (h : d ∈ codePoint c) : d ∉ avoided := by
  have hno : ∀ d ∈ codeAlphabet, d ∉ avoided := by decide
  exact hno d (mem_codeAlphabet_of_mem_codePoint h)

/-- No character of an encoded label has to be avoided. -/
theorem not_mem_avoided_of_mem_encode {label : List Char} :
    ∀ d ∈ encode label, d ∉ avoided := by
  induction label with
  | nil => exact List.forall_mem_nil _
  | cons c cs ih =>
    intro d hd
    rcases encode_cons_cases c cs with ⟨h, -⟩ | ⟨h, -⟩ | ⟨h, hplain, -⟩
    · rw [h, List.mem_append] at hd
      exact hd.elim not_mem_avoided_of_mem_codePoint (ih d)
    · rw [h, List.mem_cons, List.mem_cons] at hd
      rcases hd with rfl | rfl | hd
      · decide
      · decide
      · exact ih d hd
    · rw [h, List.mem_cons] at hd
      rcases hd with rfl | hd
      · intro hmem
        have hsub : ∀ d ∈ avoided, d ∈ ['"', '\\', '\'', '\r', '\n'] := by decide
        exact hplain (hsub d hmem)
      · exact ih d hd

/-! ## Padding -/

/-- The blanks that are written as they are, so that trimming would drop them. -/
def isPadding (c : Char) : Bool := isBlank c && c ≠ '\n' && c ≠ '\r'

/-- Padding is blank. -/
theorem isBlank_of_isPadding {c : Char} (h : isPadding c = true) : isBlank c = true := by
  rw [isPadding, Bool.and_eq_true, Bool.and_eq_true] at h
  exact h.1.1

/-- Padding is encoded as it is. -/
theorem encode_cons_of_isPadding {c : Char} (h : isPadding c = true) (cs : List Char) :
    encode (c :: cs) = c :: encode cs := by
  rcases encode_cons_cases c cs with ⟨-, hcoded⟩ | ⟨-, rfl⟩ | ⟨heq, -⟩
  · have hno : ∀ d ∈ coded, isPadding d = false := by decide
    rw [hno c hcoded] at h
    exact absurd h Bool.false_ne_true
  · exact absurd h (by decide)
  · exact heq

variable {before core after : List Char}

/-- Padding in front is written as it is. -/
theorem encode_append_of_isPadding (h : ∀ c ∈ before, isPadding c = true) (rest : List Char) :
    encode (before ++ rest) = before ++ encode rest := by
  induction before with
  | nil => rfl
  | cons c cs ih =>
    rw [List.cons_append, encode_cons_of_isPadding (h c List.mem_cons_self),
      ih fun d hd => h d (List.mem_cons_of_mem c hd), List.cons_append]

/-- Padding behind is written as it is and changes nothing before it. -/
theorem encode_append_padding (label : List Char) (h : ∀ c ∈ after, isPadding c = true) :
    encode (label ++ after) = encode label ++ after := by
  induction label with
  | nil =>
    have hafter := encode_append_of_isPadding h []
    rwa [List.append_nil, encode, List.append_nil] at hafter
  | cons c cs ih =>
    -- padding holds no `U`, so what is written for `c` stays the same
    have hhead : (cs ++ after).head? = some 'U' ↔ cs.head? = some 'U' := by
      cases cs with
      | nil =>
        refine ⟨fun hU => ?_, fun hU => absurd hU (by decide)⟩
        exact absurd (h 'U' (List.mem_of_head? hU)) (by decide)
      | cons d ds => rfl
    obtain ⟨piece, hwith, hwithout⟩ := encode_cons_congr c hhead
    rw [List.cons_append, hwith, hwithout, ih, List.append_assoc]

/-- What is written for a label that starts without padding starts without a blank. -/
theorem isBlank_head?_encode (h : ∀ c ∈ core.head?, isPadding c = false) :
    ∀ c ∈ (encode core).head?, isBlank c = false := by
  cases core with
  | nil => simp [encode]
  | cons c cs =>
    have hc : isPadding c = false := h c rfl
    rcases encode_cons_cases c cs with ⟨heq, -⟩ | ⟨heq, -⟩ | ⟨heq, hplain, -⟩
    · rw [heq, codePoint_eq, List.cons_append]
      exact Text.head?_cons (by decide) _
    · rw [heq]
      exact Text.head?_cons (by decide) _
    · rw [heq]
      refine Text.head?_cons ?_ _
      simp only [List.mem_cons, List.not_mem_nil, or_false, not_or] at hplain
      simpa [isPadding, hplain] using hc

/-- A label that is not empty is not encoded to nothing. -/
theorem encode_ne_nil {label : List Char} (h : label ≠ []) : encode label ≠ [] := by
  intro hnil
  have hdecode := decode_encode label
  rw [hnil] at hdecode
  exact h hdecode.symm

/-- What is written for a label that ends without padding ends without a blank. -/
theorem isBlank_getLast?_encode (h : ∀ c ∈ core.getLast?, isPadding c = false) :
    ∀ c ∈ (encode core).getLast?, isBlank c = false := by
  induction core with
  | nil => simp [encode]
  | cons c cs ih =>
    cases cs with
    | nil =>
      have hc : isPadding c = false := h c rfl
      intro d hd
      rcases encode_cons_cases c [] with ⟨heq, -⟩ | ⟨heq, -⟩ | ⟨heq, hplain, -⟩
      · rw [heq, encode, List.append_nil, codePoint, List.getLast?_concat, Option.mem_some] at hd
        rw [← hd]
        decide
      · rw [heq, encode] at hd
        obtain rfl : 'n' = d := by simpa using hd
        decide
      · rw [heq, encode] at hd
        obtain rfl : c = d := by simpa using hd
        simp only [List.mem_cons, List.not_mem_nil, or_false, not_or] at hplain
        simpa [isPadding, hplain] using hc
    -- the piece for `c` is followed by another one, which decides
    | cons d ds =>
      obtain ⟨piece, heq, -⟩ := encode_cons_congr c (Iff.refl ((d :: ds).head? = some 'U'))
      rw [heq, List.getLast?_append_of_ne_nil _ (encode_ne_nil (List.cons_ne_nil d ds))]
      exact ih h

/-- A label is cut into its core and the padding around it. -/
structure Cut (label before core after : List Char) : Prop where
  label_eq : label = before ++ (core ++ after)
  before_padding : ∀ c ∈ before, isPadding c = true
  after_padding : ∀ c ∈ after, isPadding c = true
  core_head : ∀ c ∈ core.head?, isPadding c = false
  core_getLast : ∀ c ∈ core.getLast?, isPadding c = false
  after_eq_nil : core = [] → after = []

/-- Every label is cut into padding, a core and padding. -/
theorem exists_cut (label : List Char) : ∃ before core after, Cut label before core after := by
  let rest := label.dropWhile isPadding
  have hrest : rest.rdropWhile isPadding ++ rest.rtakeWhile isPadding = rest := by
    rw [List.rdropWhile, List.rtakeWhile, ← List.reverse_append, List.takeWhile_append_dropWhile,
      List.reverse_reverse]
  have hhead : ∀ c ∈ rest.head?, isPadding c = false := by
    intro c hc
    have h := List.head?_dropWhile_not isPadding label
    rwa [Option.mem_def.1 hc] at h
  refine ⟨label.takeWhile isPadding, rest.rdropWhile isPadding, rest.rtakeWhile isPadding, ?_, ?_,
    ?_, ?_, ?_, ?_⟩
  · rw [hrest, List.takeWhile_append_dropWhile]
  · exact fun c hc => List.mem_takeWhile_imp hc
  · exact fun c hc => List.mem_rtakeWhile_imp hc
  · intro c hc
    refine hhead c ?_
    rw [← hrest, List.head?_append, Option.mem_def.1 hc]
    rfl
  · intro c hc
    obtain ⟨hne, rfl⟩ := List.mem_getLast?_eq_getLast hc
    simpa using List.rdropWhile_last_not isPadding rest hne
  -- a rest that is all padding would start with padding
  · intro hnil
    have hall := List.rdropWhile_eq_nil_iff.1 hnil
    have hempty : rest = [] := by
      cases hcons : rest with
      | nil => rfl
      | cons c cs =>
        rw [hcons] at hhead hall
        have hc := hall c List.mem_cons_self
        rw [hhead c rfl] at hc
        exact absurd hc Bool.false_ne_true
    rw [hempty, List.rtakeWhile_nil]

/-- **Only the padding around the core is written differently.** -/
theorem Cut.encodePadded_eq {label : List Char} (h : Cut label before core after) :
    encodePadded label = before.flatMap codePoint ++ (encode core ++ after.flatMap codePoint) := by
  have hblank : ∀ c ∈ before, isBlank c = true := fun c hc =>
    isBlank_of_isPadding (h.before_padding c hc)
  have hhead : ∀ c ∈ (encode core ++ after).head?, isBlank c = false := by
    -- an empty core has no padding behind it: all of it stands in front
    cases hcore : core with
    | nil => rw [h.after_eq_nil hcore]; simp [encode]
    | cons c cs =>
      have hne : encode core ≠ [] := encode_ne_nil (by rw [hcore]; exact List.cons_ne_nil c cs)
      rw [← hcore, List.head?_append, List.head?_eq_some_head hne, Option.some_or,
        ← List.head?_eq_some_head hne]
      exact isBlank_head?_encode h.core_head
  have hencode : encode label = before ++ (encode core ++ after) := by
    rw [h.label_eq, encode_append_of_isPadding h.before_padding,
      encode_append_padding core h.after_padding]
  have hbody : Text.trim (encode label) = encode core := by
    rw [hencode, Text.trim_append_of_blank hblank, Text.trim, Text.trimStart_eq_self hhead]
    exact Text.trimEnd_append_of_blank (fun c hc => isBlank_of_isPadding (h.after_padding c hc))
      (isBlank_getLast?_encode h.core_getLast)
  have hleading : (encode label).takeWhile isBlank = before := by
    rw [hencode]
    exact Text.takeWhile_append_of_ends hblank hhead
  have htrailing : (encode label).drop (before.length + (encode core).length) = after := by
    rw [hencode, ← List.append_assoc, ← List.length_append, List.drop_left]
  unfold encodePadded
  simp only [hleading, hbody, htrailing, List.append_assoc]

/-- **Decoding gives a padded label back.** -/
theorem decode_encodePadded (label : List Char) : decode (encodePadded label) = label := by
  obtain ⟨before, core, after, h⟩ := exists_cut label
  have hafter : (after.flatMap codePoint).head? ≠ some 'U' := by
    cases after with
    | nil => simp
    | cons c cs => rw [List.flatMap_cons, codePoint_eq]; simp
  have hend := decodeFrom_flatMap_codePoint_append after []
  rw [List.append_nil, decodeFrom, List.append_nil] at hend
  rw [decode, h.encodePadded_eq, decodeFrom_flatMap_codePoint_append,
    decodeFrom_encode_append core hafter, hend, h.label_eq]

/-- A padded label that is not empty is not encoded to nothing. -/
theorem encodePadded_ne_nil {label : List Char} (h : label ≠ []) : encodePadded label ≠ [] := by
  intro hnil
  have hdecode := decode_encodePadded label
  rw [hnil] at hdecode
  exact h hdecode.symm

/-- Neither has any character of a padded label to be avoided. -/
theorem not_mem_avoided_of_mem_encodePadded {label : List Char} :
    ∀ d ∈ encodePadded label, d ∉ avoided := by
  obtain ⟨before, core, after, h⟩ := exists_cut label
  intro d hd
  rw [h.encodePadded_eq, List.mem_append, List.mem_append, List.mem_flatMap, List.mem_flatMap] at hd
  rcases hd with ⟨c, -, hd⟩ | hd | ⟨c, -, hd⟩
  · exact not_mem_avoided_of_mem_codePoint hd
  · exact not_mem_avoided_of_mem_encode d hd
  · exact not_mem_avoided_of_mem_codePoint hd

/-- There are no blanks among code points. -/
theorem isBlank_of_mem_flatMap_codePoint (cs : List Char) :
    ∀ d ∈ cs.flatMap codePoint, isBlank d = false := by
  have hno : ∀ d ∈ codeAlphabet, isBlank d = false := by decide
  intro d hd
  obtain ⟨c, -, hd⟩ := List.mem_flatMap.1 hd
  exact hno d (mem_codeAlphabet_of_mem_codePoint hd)

/-- **No blank stands at the start of a padded label.** -/
theorem isBlank_head?_encodePadded (label : List Char) :
    ∀ c ∈ (encodePadded label).head?, isBlank c = false := by
  obtain ⟨before, core, after, h⟩ := exists_cut label
  have hbefore := isBlank_of_mem_flatMap_codePoint before
  have hafter := isBlank_of_mem_flatMap_codePoint after
  rw [h.encodePadded_eq]
  exact Text.forall_head?_append (fun c hc => hbefore c (List.mem_of_head? hc))
    (Text.forall_head?_append (isBlank_head?_encode h.core_head)
      fun c hc => hafter c (List.mem_of_head? hc))

/-- **No blank stands at the end of a padded label.** -/
theorem isBlank_getLast?_encodePadded (label : List Char) :
    ∀ c ∈ (encodePadded label).getLast?, isBlank c = false := by
  obtain ⟨before, core, after, h⟩ := exists_cut label
  have hbefore := isBlank_of_mem_flatMap_codePoint before
  have hafter := isBlank_of_mem_flatMap_codePoint after
  rw [h.encodePadded_eq]
  exact Text.forall_getLast?_append (fun c hc => hbefore c (List.mem_of_getLast? hc))
    (Text.forall_getLast?_append (isBlank_getLast?_encode h.core_getLast)
      fun c hc => hafter c (List.mem_of_getLast? hc))

/-! ## The codec -/

/-- **Both ways to write a label are lossless and safe**, whatever the label holds. Decoding gives the
label back. No quote, apostrophe or line break is written. A padded label neither starts nor ends with
a blank, so trimming it changes nothing, and it is written as nothing only if it is empty. -/
theorem codec_isLossless (label : List Char) :
    (decode (encode label) = label ∧ decode (encodePadded label) = label) ∧
      (['"', '\'', '\n', '\r'].Disjoint (encode label) ∧
        ['"', '\'', '\n', '\r'].Disjoint (encodePadded label)) ∧
      ((encodePadded label).head?.any isBlank = false ∧
        (encodePadded label).getLast?.any isBlank = false ∧
        Text.trim (encodePadded label) = encodePadded label) ∧
      (encodePadded label = [] ↔ label = []) := by
  have hhead := isBlank_head?_encodePadded label
  have hlast := isBlank_getLast?_encodePadded label
  have hsub : ∀ c ∈ ['"', '\'', '\n', '\r'], c ∈ avoided := by decide
  refine ⟨⟨decode_encode label, decode_encodePadded label⟩, ⟨?_, ?_⟩, ⟨?_, ?_, ?_⟩, ?_, ?_⟩
  · exact fun c hc hmem => not_mem_avoided_of_mem_encode c hmem (hsub c hc)
  · exact fun c hc hmem => not_mem_avoided_of_mem_encodePadded c hmem (hsub c hc)
  · exact (Option.any_eq_false _ _).2 hhead
  · exact (Option.any_eq_false _ _).2 hlast
  · exact Text.trim_eq_self hhead hlast
  · intro hnil
    by_contra hne
    exact encodePadded_ne_nil hne hnil
  · rintro rfl
    rfl

/-- A less-than sign, blanks at both ends, a quote and a backslash, all in one label. -/
example : encodePadded "\t<U \\\"< ".toList =
    "<U+0009><U+003C>U <U+005C><U+0022><<U+0020>".toList := by decide

end Flowchart.PlantUml.Label
