import Flowchart.Flow.Token
import Flowchart.Proofs.Text.Runs

/-!
# Words of flow text

A text token is made of words. A word ends in front of an arrow, a comment, one of a few characters or
a blank, so neither of these stands in a word; between two words there are spaces, in which nothing
ends that is no blank. The module lists what ends a text token (`textEnds`) and shows that none of it
occurs in one, also not across a word and the space behind it.

Where no token of another kind starts, no word ends, and **so there always is a text**: the complaint
about an unexpected character is never made.
-/

namespace Flowchart.Flow

open Text (isBlank)

variable {cs rest text : List Char}

/-! ## Marks -/

/-- What ends a text token, apart from blanks at its end. -/
def textEnds : List (List Char) :=
  [['-', '>'], ['=', '>'], ['/', '/'], ['\n'], ['|'], ['('], [')'], ['['], [']'], ['"']]

/-- What a text token holds: a text that is not empty, has no blanks at its ends and none of the
marks in it. -/
structure IsPlainText (content : List Char) : Prop where
  ne_nil : content ≠ []
  first : ∀ c ∈ content.head?, isBlank c = false
  last : ∀ c ∈ content.getLast?, isBlank c = false
  no_end : ∀ mark ∈ textEnds, ¬ mark <:+: content

/-- Where a mark starts, a word ends. -/
theorem endsWord_of_front {mark : List Char} (hmark : mark ∈ textEnds) (h : mark <+: cs) :
    endsWord cs = true := by
  obtain ⟨rest, rfl⟩ := h
  simp only [textEnds, List.mem_cons, List.not_mem_nil, or_false] at hmark
  rcases hmark with rfl | rfl | rfl | rfl | rfl | rfl | rfl | rfl | rfl | rfl <;> rfl

/-- No mark starts with a space, which is a blank that ends no line. -/
theorem head?_mark : ∀ mark ∈ textEnds, mark.head?.any (isSpace · = false) = true := by decide

/-! ## Texts in which no mark starts -/

/-- At no character of the text does a mark start, whether it ends in the text or in what follows. -/
def Unmarked (text rest : List Char) : Prop :=
  ∀ front back, text = front ++ back → back ≠ [] → ∀ mark ∈ textEnds, ¬ mark <+: back ++ rest

namespace Unmarked

theorem nil (rest : List Char) : Unmarked [] rest := by
  intro front back heq hback
  exact absurd (List.append_eq_nil_iff.1 heq.symm).2 hback

/-- A character in front. -/
theorem cons {c : Char} (hc : ∀ mark ∈ textEnds, ¬ mark <+: c :: (text ++ rest))
    (h : Unmarked text rest) : Unmarked (c :: text) rest := by
  intro front back heq hback
  cases front with
  | nil =>
    obtain rfl : c :: text = back := heq
    exact hc
  | cons d front =>
    obtain ⟨-, htext⟩ := List.cons_eq_cons.1 heq
    exact h front back htext hback

/-- Two texts one after the other. -/
theorem append {text' : List Char} (h : Unmarked text (text' ++ rest)) (h' : Unmarked text' rest) :
    Unmarked (text ++ text') rest := by
  induction text with
  | nil => exact h'
  | cons c text ih =>
    refine cons (fun mark hmark => ?_) (ih fun front back heq => h (c :: front) back ?_)
    · have hstart := h [] (c :: text) rfl (List.cons_ne_nil c text) mark hmark
      rwa [List.cons_append, ← List.append_assoc] at hstart
    · rw [heq, List.cons_append]

/-- Spaces hold no mark, whatever follows them. -/
theorem of_spaces (h : ∀ c ∈ text, isSpace c = true) (rest : List Char) : Unmarked text rest := by
  induction text with
  | nil => exact nil rest
  | cons c text ih =>
    refine cons (fun mark hmark hstart => ?_) (ih fun d hd => h d (List.mem_cons_of_mem c hd))
    obtain ⟨d, hd, hspace⟩ := (Option.any_eq_true _ _).1 (head?_mark mark hmark)
    obtain ⟨tail, htail⟩ := hstart
    have hhead : (c :: (text ++ rest)).head? = some d := by
      rw [← htail, List.head?_append, hd, Option.some_or]
    obtain rfl : c = d := by simpa using hhead
    exact absurd (h c List.mem_cons_self) (by simpa using hspace)

/-- A mark in the text would start at one of its characters. -/
theorem not_isInfix (h : Unmarked text rest) {mark : List Char} (hmark : mark ∈ textEnds) :
    ¬ mark <:+: text := by
  rintro ⟨front, back, heq⟩
  have hne : mark ≠ [] := by
    rintro rfl
    exact absurd hmark (by decide)
  refine h front (mark ++ back) (by rw [← heq, List.append_assoc])
    (List.append_ne_nil_of_left_ne_nil hne back) mark hmark ?_
  exact ⟨back ++ rest, by rw [List.append_assoc]⟩

end Unmarked

/-! ## Words -/

/-- No mark starts in a word, and no character of it is blank. -/
theorem unmarked_splitWord (cs : List Char) :
    Unmarked (splitWord cs).1 (splitWord cs).2 ∧ ∀ c ∈ (splitWord cs).1, isBlank c = false := by
  induction cs with
  | nil => exact ⟨.nil _, List.forall_mem_nil _⟩
  | cons c cs ih =>
    unfold splitWord
    split
    · exact ⟨.nil _, List.forall_mem_nil _⟩
    · next hends =>
      refine ⟨.cons (fun mark hmark hstart => ?_) ih.1, List.forall_mem_cons.2 ⟨?_, ih.2⟩⟩
      · rw [append_splitWord] at hstart
        exact hends (endsWord_of_front hmark hstart)
      · by_contra hblank
        exact hends (by simp [endsWord, eq_true_of_ne_false hblank])

/-- What is read as one or more words: no mark starts in it, and there is no blank at its end. -/
structure IsWords (text rest : List Char) : Prop where
  unmarked : Unmarked text rest
  last : ∀ c ∈ text.getLast?, isBlank c = false

namespace IsWords

theorem nil (rest : List Char) : IsWords [] rest := ⟨.nil rest, by simp⟩

theorem append {text' : List Char} (h : IsWords text (text' ++ rest)) (h' : IsWords text' rest) :
    IsWords (text ++ text') rest := by
  refine ⟨h.unmarked.append h'.unmarked, fun c hc => ?_⟩
  rw [List.getLast?_append] at hc
  cases hlast : text'.getLast? with
  | none => exact h.last c (by simpa [hlast] using hc)
  | some d =>
    obtain rfl : d = c := by simpa [hlast] using hc
    exact h'.last d hlast

end IsWords

theorem isWords_of_word? {word : List Char} (h : word? cs = some (word, rest)) :
    IsWords word rest ∧ ∀ c ∈ word, isBlank c = false := by
  unfold word? at h
  dsimp only at h
  split at h
  · exact absurd h (by simp)
  · have hfound : splitWord cs = (word, rest) := Option.some.inj h
    have hword := unmarked_splitWord cs
    rw [hfound] at hword
    exact ⟨⟨hword.1, fun c hc => hword.2 c (List.mem_of_getLast? hc)⟩, hword.2⟩

/-- Spaces and a word end in the word. -/
theorem isWords_of_spacedWord? {front : List Char} (h : spacedWord? cs = some (front, rest)) :
    IsWords front rest := by
  unfold spacedWord? at h
  split at h
  · exact absurd h (by simp)
  · obtain ⟨⟨word, left⟩, hword, heq⟩ := Option.map_eq_some_iff.1 h
    obtain ⟨rfl, rfl⟩ : _ = front ∧ left = rest := Prod.mk.inj heq
    obtain ⟨hwords, -⟩ := isWords_of_word? hword
    refine ⟨(Unmarked.of_spaces (fun c hc => List.mem_takeWhile_imp hc) _).append hwords.unmarked, ?_⟩
    rw [List.getLast?_append_of_ne_nil _ (append_of_word? hword).1]
    exact hwords.last

/-- Each further word leaves the words in front of it as they are. -/
theorem isWords_moreWords (cs : List Char) : IsWords (moreWords cs).1 (moreWords cs).2 := by
  fun_induction moreWords cs with
  | case1 cs => exact .nil cs
  | case2 cs front rest hfront next ih =>
    refine .append ?_ ih
    rw [append_moreWords]
    exact isWords_of_spacedWord? hfront

/-- **What a text token holds.** -/
theorem isPlainText_of_text? (h : text? cs = some (text, rest)) : IsPlainText text := by
  obtain ⟨⟨word, left⟩, hword, heq⟩ := Option.map_eq_some_iff.1 h
  obtain ⟨rfl, rfl⟩ : word ++ (moreWords left).1 = text ∧ (moreWords left).2 = rest :=
    Prod.mk.inj heq
  obtain ⟨hne, -⟩ := append_of_word? hword
  obtain ⟨hwords, hblank⟩ := isWords_of_word? hword
  have htext : IsWords (word ++ (moreWords left).1) (moreWords left).2 := by
    refine .append ?_ (isWords_moreWords left)
    rw [append_moreWords]
    exact hwords
  refine ⟨List.append_ne_nil_of_left_ne_nil hne _, ?_, htext.last,
    fun mark hmark => htext.unmarked.not_isInfix hmark⟩
  rw [List.head?_append_of_ne_nil _ hne]
  exact fun c hc => hblank c (List.mem_of_head? hc)

/-! ## The last alternative -/

/-- The text starts with a token of another kind than text. -/
def startsOther (c : Char) (cs : List Char) : Bool :=
  ['/', '/'].isPrefixOf (c :: cs) || c == '"' || ['-', '>'].isPrefixOf (c :: cs) ||
    ['=', '>'].isPrefixOf (c :: cs) || (mark? c).isSome || isSpace c

/-- Whatever ends a word is one of the marks or a space. -/
theorem startsOther_of_endsWord {c : Char} (h : endsWord (c :: cs) = true) :
    startsOther c cs = true := by
  have hwordEnd : c ∈ wordEnds → c = '"' ∨ (mark? c).isSome = true := by
    have hall : ∀ d ∈ wordEnds, d = '"' ∨ (mark? d).isSome = true := by decide
    exact hall c
  have hblank : isBlank c = true → (mark? c).isSome = true ∨ isSpace c = true := by
    intro hc
    by_cases hfeed : c = '\n'
    · exact Or.inl (by rw [hfeed]; rfl)
    · exact Or.inr (by simp [isSpace, hc, hfeed])
  simp only [endsWord, List.head?_cons, Option.any_some, Bool.or_eq_true,
    List.contains_iff_mem] at h
  simp only [startsOther, Bool.or_eq_true, beq_iff_eq]
  tauto

/-- **Where no other token starts there is a text**, so that no character is unexpected. -/
theorem exists_text?_eq_some {c : Char} (h : startsOther c cs = false) :
    ∃ text rest, text? (c :: cs) = some (text, rest) := by
  have hends : endsWord (c :: cs) = false := by
    by_contra hne
    rw [startsOther_of_endsWord (eq_true_of_ne_false hne)] at h
    exact Bool.false_ne_true h.symm
  have hsplit : splitWord (c :: cs) = (c :: (splitWord cs).1, (splitWord cs).2) := by
    rw [splitWord, if_neg (by rw [hends]; exact Bool.false_ne_true)]
  have hword : word? (c :: cs) = some (c :: (splitWord cs).1, (splitWord cs).2) := by
    rw [word?, hsplit]
    rfl
  exact ⟨_, _, by rw [text?, hword, Option.map_some]⟩

/-! ## One step -/

/-- A step makes a token of a front of the text that is not empty; what a text token holds is this
front. -/
def TakesToken (pos : Nat) (cs : List Char) (found : Lexeme × List Char) : Prop :=
  ∃ taken rest token, taken ≠ [] ∧ cs = taken ++ rest ∧
    (∀ content, token = .text content → content = taken ∧ IsPlainText content) ∧
    found = (.ofText pos taken token, rest)

namespace TakesToken

variable {pos : Nat}

/-- A token of another kind than text. -/
theorem of_ne_text {taken : List Char} {token : Token} (hne : taken ≠ []) (heq : cs = taken ++ rest)
    (htoken : ∀ content, token ≠ .text content) :
    TakesToken pos cs (.ofText pos taken token, rest) :=
  ⟨taken, rest, token, hne, heq, fun content h => absurd h (htoken content), rfl⟩

/-- A text token. -/
theorem of_text? (h : text? cs = some (text, rest)) :
    TakesToken pos cs (.ofText pos text (.text text), rest) := by
  obtain ⟨hne, happend⟩ := append_of_text? h
  refine ⟨text, rest, .text text, hne, happend.symm, fun content hcontent => ?_, rfl⟩
  obtain rfl := Token.text.inj hcontent
  exact ⟨rfl, isPlainText_of_text? h⟩

/-- A mark of two characters. -/
theorem of_pair {a b c : Char} {token : Token} (h : [a, b].isPrefixOf (c :: cs) = true)
    (htoken : ∀ content, token ≠ .text content) :
    TakesToken pos (c :: cs) (.ofText pos [a, b] token, cs.drop 1) := by
  obtain ⟨rest, hrest⟩ := List.isPrefixOf_iff_prefix.1 h
  obtain ⟨rfl, rfl⟩ := List.cons_eq_cons.1 hrest
  exact of_ne_text (List.cons_ne_nil _ _) rfl htoken

/-- A token that goes on as long as its characters are of one kind. -/
theorem of_run {c : Char} {token : Token} (p : Char → Bool)
    (htoken : ∀ content, token ≠ .text content) :
    TakesToken pos (c :: cs) (.ofText pos (c :: cs.takeWhile p) token, cs.dropWhile p) := by
  refine of_ne_text (List.cons_ne_nil _ _) ?_ htoken
  rw [List.cons_append, List.takeWhile_append_dropWhile]

end TakesToken

/-- A mark of one character is no text. -/
theorem mark?_ne_text {c : Char} {token : Token} (h : mark? c = some token) (content : List Char) :
    token ≠ .text content := by
  rintro rfl
  unfold mark? at h
  split at h <;> simp at h

/-- **What a step of the scan can do**: it makes a token of a front of the text that is not empty, or
it reads a string. -/
theorem scanOne_cases (pos : Nat) (c : Char) (cs : List Char) :
    TakesToken pos (c :: cs) (scanOne pos c cs) ∨ (c = '"' ∧ scanOne pos c cs = scanString pos cs) := by
  unfold scanOne
  split
  · next hcomment =>
    obtain ⟨rest, hrest⟩ := List.isPrefixOf_iff_prefix.1 hcomment
    obtain ⟨rfl, -⟩ := List.cons_eq_cons.1 hrest
    have htake : ('/' :: cs).takeWhile (· ≠ '\n') = '/' :: cs.takeWhile (· ≠ '\n') := rfl
    rw [htake]
    exact Or.inl (.of_run _ (by simp))
  next hcomment =>
  split
  · next hquote => exact Or.inr ⟨hquote, rfl⟩
  next hquote =>
  split
  · next harrow => exact Or.inl (.of_pair harrow (by simp))
  next harrow =>
  split
  · next hmerge => exact Or.inl (.of_pair hmerge (by simp))
  next hmerge =>
  split
  · next token htoken =>
    exact Or.inl (.of_ne_text (List.cons_ne_nil _ _) rfl (mark?_ne_text htoken))
  next hnone =>
  split
  · exact Or.inl (.of_run isSpace (by simp))
  next hspace =>
  split
  · next htext => exact Or.inl (.of_text? htext)
  -- no character is unexpected: what starts no other token starts a text
  · next htext =>
    have hother : startsOther c cs = false := by
      simp [startsOther, hcomment, hquote, harrow, hmerge, hnone, hspace]
    obtain ⟨text, rest, hsome⟩ := exists_text?_eq_some hother
    rw [htext] at hsome
    exact absurd hsome (by simp)

end Flowchart.Flow
