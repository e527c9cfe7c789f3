import Flowchart.Proofs.Text.Runs
import Flowchart.Source.Reader

/-!
# What a reader makes of a known text

`Reads r text P rest` says that the reader `r`, started anywhere at `text`, returns a value with the
property `P` and leaves `rest`; `Declines r text` says that it expects something else there, so that
an alternative is tried. Offsets are left open, because a value does not depend on them but for the
places noted in it.

Every combinator has a rule that follows its own steps, and every reader of a part of a statement a
lemma that says which texts it reads. A reader of statements is then proved by applying these rules
in the order in which its steps stand.
-/

namespace Flowchart

open Text (isBlank isWordChar sameLetters)

namespace Reader

variable {α β : Type} {r : Reader α} {f : α → Reader β} {P : α → Prop} {Q : β → Prop}
variable {text rest left mark : List Char}

/-- Reading `text` gives a value with the property and leaves `rest`. -/
def Reads (r : Reader α) (text : List Char) (P : α → Prop) (rest : List Char) : Prop :=
  ∀ pos, ∃ a pos', r ⟨pos, text⟩ = .ok (a, ⟨pos', rest⟩) ∧ P a

/-- Something else than this text is expected. -/
def Declines (r : Reader α) (text : List Char) : Prop :=
  ∀ pos, ∃ names place, r ⟨pos, text⟩ = .error (.expected names place)

/-! ## Sequences -/

/-- A first step that reads something hands it on, together with the cursor behind it. -/
theorem bind_ok {a : α} {c c' : Cursor} (h : r c = .ok (a, c')) : (r >>= f) c = f a c' := by
  show (r c >>= fun p => f p.1 p.2) = f a c'
  rw [h]
  rfl

/-- A first step that stops ends the whole sequence. -/
theorem bind_error {stop : Stop} {c : Cursor} (h : r c = .error stop) :
    (r >>= f) c = .error stop := by
  show (r c >>= fun p => f p.1 p.2) = .error stop
  rw [h]
  rfl

/-- What is ready at hand is read from any text, of which it takes nothing. -/
theorem Reads.pure {a : α} (h : P a) : Reads (Pure.pure a) text P text :=
  fun pos => ⟨a, pos, rfl, h⟩

/-- **Readers in sequence**: what the first one leaves is what the second one reads. -/
theorem Reads.bind (hr : Reads r text P left) (hf : ∀ a, P a → Reads (f a) left Q rest) :
    Reads (r >>= f) text Q rest := by
  intro pos
  obtain ⟨a, mid, hread, ha⟩ := hr pos
  obtain ⟨b, stop, hnext, hb⟩ := hf a ha mid
  exact ⟨b, stop, by rw [bind_ok hread, hnext], hb⟩

/-- The usual step: the value that is read is known. -/
theorem Reads.andThen {a : α} (hr : Reads r text (· = a) left) (hf : Reads (f a) left Q rest) :
    Reads (r >>= f) text Q rest :=
  hr.bind fun b hb => by rw [hb]; exact hf

/-- A value that is already there is handed on. -/
theorem Reads.pure_bind {a : α} (hf : Reads (f a) text Q rest) :
    Reads (Pure.pure a >>= f) text Q rest := hf

/-- A reader may be said to read less than it does. -/
theorem Reads.mono {P' : α → Prop} (hr : Reads r text P rest) (h : ∀ a, P a → P' a) :
    Reads r text P' rest := by
  intro pos
  obtain ⟨a, pos', hread, ha⟩ := hr pos
  exact ⟨a, pos', hread, h a ha⟩

/-- A reader whose result is changed afterwards takes the same piece of the text. -/
theorem Reads.map {g : α → β} (hr : Reads r text P rest) (h : ∀ a, P a → Q (g a)) :
    Reads (g <$> r) text Q rest := by
  intro pos
  obtain ⟨a, pos', hread, ha⟩ := hr pos
  refine ⟨g a, pos', ?_, h a ha⟩
  show (r ⟨pos, text⟩ >>= fun p => Pure.pure (g p.1, p.2)) = _
  rw [hread]
  rfl

/-- A sequence declines where its first reader does, because nothing was taken before. -/
theorem Declines.bind (hr : Declines r text) : Declines (r >>= f) text := by
  intro pos
  obtain ⟨names, place, hread⟩ := hr pos
  exact ⟨names, place, bind_error hread⟩

/-- A sequence also declines behind a first reader that reads something and takes nothing for good. -/
theorem Reads.bind_declines (hr : Reads r text P left) (hf : ∀ a, P a → Declines (f a) left) :
    Declines (r >>= f) text := by
  intro pos
  obtain ⟨a, mid, hread, ha⟩ := hr pos
  obtain ⟨names, place, hnext⟩ := hf a ha mid
  exact ⟨names, place, by rw [bind_ok hread, hnext]⟩

/-! ## Names and alternatives -/

/-- Naming what a reader expects changes only its complaint. -/
theorem Reads.named (name : String) (hr : Reads r text P rest) :
    Reads (Reader.named name r) text P rest := by
  intro pos
  obtain ⟨a, pos', hread, ha⟩ := hr pos
  exact ⟨a, pos', by rw [Reader.named, hread], ha⟩

/-- A named reader declines where the reader does. -/
theorem Declines.named (name : String) (hr : Declines r text) :
    Declines (Reader.named name r) text := by
  intro pos
  obtain ⟨names, place, hread⟩ := hr pos
  exact ⟨names ++ [name], place, by rw [Reader.named, hread]⟩

/-- An optional piece that is there is read. -/
theorem Reads.optional (hr : Reads r text P rest) :
    Reads (Reader.optional r) text (fun o => ∃ a, o = some a ∧ P a) rest := by
  intro pos
  obtain ⟨a, pos', hread, ha⟩ := hr pos
  exact ⟨some a, pos', by rw [Reader.optional, hread], a, rfl, ha⟩

/-- An optional piece that is not there is read as nothing, and nothing is taken. -/
theorem Declines.optional (hr : Declines r text) :
    Reads (Reader.optional r) text (· = none) text := by
  intro pos
  obtain ⟨names, place, hread⟩ := hr pos
  exact ⟨none, pos, by rw [Reader.optional, hread], rfl⟩

/-- Of two readers the first one decides where it reads something. -/
theorem Reads.or_left {second : Reader α} (hr : Reads r text P rest) :
    Reads (Reader.or r second) text P rest := by
  intro pos
  obtain ⟨a, pos', hread, ha⟩ := hr pos
  exact ⟨a, pos', by rw [Reader.or, hread], ha⟩

/-- The second of two readers has its turn where the first one declines. -/
theorem Reads.or_right {second : Reader α} (hr : Declines r text)
    (hsecond : Reads second text P rest) : Reads (Reader.or r second) text P rest := by
  intro pos
  obtain ⟨names, place, hread⟩ := hr pos
  obtain ⟨a, pos', hnext, ha⟩ := hsecond pos
  exact ⟨a, pos', by rw [Reader.or, hread, hnext], ha⟩

/-- Two alternatives decline together. -/
theorem Declines.or {second : Reader α} (hr : Declines r text) (hsecond : Declines second text) :
    Declines (Reader.or r second) text := by
  intro pos
  obtain ⟨names, place, hread⟩ := hr pos
  obtain ⟨names', place', hnext⟩ := hsecond pos
  exact ⟨names', place', by rw [Reader.or, hread, hnext]⟩

/-! ## Looking at the text -/

variable {g : Bool → Reader β} {b : Bool}

/-- A reader may look at its cursor, and then knows the text that is left. -/
theorem Reads.cursor {f : Cursor → Reader β} (h : ∀ c, c.rest = text → Reads (f c) text Q rest) :
    Reads (Reader.cursor >>= f) text Q rest :=
  fun pos => h ⟨pos, text⟩ rfl pos

/-- A reader may ask for its position, which a text by itself does not settle. -/
theorem Reads.position {f : Nat → Reader β} (h : ∀ pos, Reads (f pos) text Q rest) :
    Reads (Reader.position >>= f) text Q rest :=
  fun pos => h pos pos

/-- Whether the text is at its end is seen without taking any of it. -/
theorem Reads.atEnd (hb : text.isEmpty = b) (h : Reads (g b) text Q rest) :
    Reads (Reader.atEnd >>= g) text Q rest := by
  rw [← hb] at h
  exact h

/-- Whether a mark comes next is seen without taking it. -/
theorem Reads.lookingAt (hb : mark.isPrefixOf text = b) (h : Reads (g b) text Q rest) :
    Reads (Reader.lookingAt mark >>= g) text Q rest := by
  rw [← hb] at h
  exact h

/-- A mark that comes next is taken. -/
theorem accept_eq_true {pos : Nat} :
    Reader.accept mark ⟨pos, mark ++ left⟩ = .ok (true, ⟨pos + Text.byteSize mark, left⟩) := by
  rw [Reader.accept, Text.isPrefixOf?_append]
  rfl

/-- A mark that does not come next leaves the cursor where it was. -/
theorem accept_eq_false {pos : Nat} (h : mark.isPrefixOf text = false) :
    Reader.accept mark ⟨pos, text⟩ = .ok (false, ⟨pos, text⟩) := by
  rw [← List.isSome_isPrefixOf?_eq_isPrefixOf, Option.isSome_eq_false_iff,
    Option.isNone_iff_eq_none] at h
  rw [Reader.accept, h]

/-- Behind a mark that is there the rest of the reader goes on. -/
theorem Reads.accept (h : Reads (g true) left Q rest) :
    Reads (Reader.accept mark >>= g) (mark ++ left) Q rest := by
  intro pos
  obtain ⟨a, pos', hread, ha⟩ := h (pos + Text.byteSize mark)
  exact ⟨a, pos', by rw [bind_ok accept_eq_true, hread], ha⟩

section Branches

variable {yes no : Reader β}

/-- The branch behind a mark. -/
theorem Reads.accept_then (h : Reads yes left Q rest) :
    Reads (do if ← Reader.accept mark then yes else no) (mark ++ left) Q rest := by
  refine Reads.accept ?_
  rw [if_pos rfl]
  exact h

/-- The branch where a mark is missing. -/
theorem Reads.accept_else (hno : mark.isPrefixOf text = false) (h : Reads no text Q rest) :
    Reads (do if ← Reader.accept mark then yes else no) text Q rest := by
  intro pos
  obtain ⟨a, pos', hread, ha⟩ := h pos
  refine ⟨a, pos', ?_, ha⟩
  rw [bind_ok (accept_eq_false hno), if_neg Bool.false_ne_true, hread]

/-- The branch in front of a mark. -/
theorem Reads.lookingAt_then (hyes : mark.isPrefixOf text = true) (h : Reads yes text Q rest) :
    Reads (do if ← Reader.lookingAt mark then yes else no) text Q rest := by
  refine Reads.lookingAt hyes ?_
  rw [if_pos rfl]
  exact h

/-- The branch in front of anything but a mark. -/
theorem Reads.lookingAt_else (hno : mark.isPrefixOf text = false) (h : Reads no text Q rest) :
    Reads (do if ← Reader.lookingAt mark then yes else no) text Q rest := by
  refine Reads.lookingAt hno ?_
  rw [if_neg Bool.false_ne_true]
  exact h

/-- The branch where text is left. -/
theorem Reads.atEnd_else (hmore : text ≠ []) (h : Reads no text Q rest) :
    Reads (do if ← Reader.atEnd then yes else no) text Q rest := by
  refine Reads.atEnd (List.isEmpty_eq_false_iff.2 hmore) ?_
  rw [if_neg Bool.false_ne_true]
  exact h

/-- A choice by a mark that is not there declines where its other branch does. -/
theorem Declines.accept_else (hno : mark.isPrefixOf text = false) (h : Declines no text) :
    Declines (do if ← Reader.accept mark then yes else no) text := by
  intro pos
  obtain ⟨names, place, hread⟩ := h pos
  refine ⟨names, place, ?_⟩
  rw [bind_ok (accept_eq_false hno), if_neg Bool.false_ne_true, hread]

/-- The same holds if the mark is only looked at. -/
theorem Declines.lookingAt_else (hno : mark.isPrefixOf text = false) (h : Declines no text) :
    Declines (do if ← Reader.lookingAt mark then yes else no) text := by
  intro pos
  obtain ⟨names, place, hread⟩ := h pos
  refine ⟨names, place, ?_⟩
  have hlooking : Reader.lookingAt mark ⟨pos, text⟩ = .ok (false, ⟨pos, text⟩) := by
    rw [← hno]
    rfl
  rw [bind_ok hlooking, if_neg Bool.false_ne_true, hread]

end Branches

/-- A complaint about something that was expected takes nothing. -/
theorem declines_expected (name : String) : Declines (expected (α := α) name) text :=
  fun pos => ⟨[name], ⟨pos, text⟩, rfl⟩

/-- A reader that looks at its cursor first declines if the rest of it does. -/
theorem Declines.cursor {f : Cursor → Reader β} (h : ∀ c, c.rest = text → Declines (f c) text) :
    Declines (Reader.cursor >>= f) text :=
  fun pos => h ⟨pos, text⟩ rfl pos

/-- Moving on leaves just the text that it moves to. -/
theorem reads_moveTo : Reads (moveTo left) text (fun _ => True) left :=
  fun _ => ⟨(), _, rfl, trivial⟩

/-! ## Runs of characters -/

/-- **A run of characters** is taken as a whole if the next character does not belong to it. -/
theorem reads_takeWhile {p : Char → Bool} {run : List Char} (hrun : ∀ c ∈ run, p c = true)
    (hrest : ∀ c ∈ rest.head?, p c = false) :
    Reads (takeWhile p) (run ++ rest) (· = run) rest := by
  intro pos
  refine ⟨run, pos + Text.byteSize run, ?_, rfl⟩
  simp only [takeWhile, Cursor.after, Text.takeWhile_append_of_ends hrun hrest,
    Text.dropWhile_append_of_ends hrun hrest]

/-- A run that is long enough is taken. -/
theorem reads_takeAtLeast {least : Nat} {p : Char → Bool} {run : List Char}
    (hleast : least ≤ run.length) (hrun : ∀ c ∈ run, p c = true)
    (hrest : ∀ c ∈ rest.head?, p c = false) :
    Reads (takeAtLeast least p) (run ++ rest) (· = run) rest := by
  intro pos
  refine ⟨run, pos + Text.byteSize run, ?_, rfl⟩
  simp only [takeAtLeast, Cursor.after, Text.takeWhile_append_of_ends hrun hrest,
    Text.dropWhile_append_of_ends hrun hrest]
  rw [if_neg (by omega)]

/-- No run begins with a character that does not belong to one. -/
theorem declines_takeAtLeast {least : Nat} {p : Char → Bool} (hleast : 0 < least)
    (htext : ∀ c ∈ text.head?, p c = false) : Declines (takeAtLeast least p) text := by
  intro pos
  have hnone : text.takeWhile p = [] := Text.takeWhile_append_of_ends (a := []) (by simp) htext
  refine ⟨[], ⟨pos, text⟩, ?_⟩
  simp only [takeAtLeast, hnone, List.length_nil]
  rw [if_pos hleast]

/-- The whole text is one run. -/
theorem reads_takeAll : Reads takeAll text (· = text) [] :=
  fun pos => ⟨text, pos + Text.byteSize text, rfl, rfl⟩

theorem reads_blanks {run : List Char} (hrun : ∀ c ∈ run, isBlank c = true)
    (hrest : ∀ c ∈ rest.head?, isBlank c = false) :
    Reads blanks (run ++ rest) (fun _ => True) rest :=
  (reads_takeWhile hrun hrest).bind fun _ _ => Reads.pure trivial

/-- Whatever the text, its blanks in front are read. -/
theorem reads_blanks_dropWhile (text : List Char) :
    Reads blanks text (fun _ => True) (text.dropWhile isBlank) :=
  fun _ => ⟨(), _, rfl, trivial⟩

/-- Blanks need not be there. -/
theorem reads_noBlanks (hrest : ∀ c ∈ rest.head?, isBlank c = false) :
    Reads blanks rest (fun _ => True) rest :=
  reads_blanks (List.forall_mem_nil _) hrest

/-- A single space between two parts. -/
theorem reads_space (hrest : ∀ c ∈ rest.head?, isBlank c = false) :
    Reads blanks (' ' :: rest) (fun _ => True) rest :=
  reads_blanks (List.forall_mem_singleton.2 rfl) hrest

/-- Blanks that must be there may be of any kind. -/
theorem reads_someBlanks {run : List Char} (hne : run ≠ []) (hrun : ∀ c ∈ run, isBlank c = true)
    (hrest : ∀ c ∈ rest.head?, isBlank c = false) :
    Reads someBlanks (run ++ rest) (fun _ => True) rest :=
  ((reads_takeAtLeast (List.length_pos_iff.2 hne) hrun hrest).named _).bind
    fun _ _ => Reads.pure trivial

/-- One space is enough. -/
theorem reads_someSpace (hrest : ∀ c ∈ rest.head?, isBlank c = false) :
    Reads someBlanks (' ' :: rest) (fun _ => True) rest :=
  reads_someBlanks (List.cons_ne_nil ' ' []) (List.forall_mem_singleton.2 rfl) hrest

/-- A word is an identifier where no further word character follows. -/
theorem reads_identifier {word : List Char} (hword : Text.IsWord word)
    (hrest : ∀ c ∈ rest.head?, isWordChar c = false) :
    Reads identifier (word ++ rest) (· = word) rest :=
  (reads_takeAtLeast (List.length_pos_iff.2 hword.ne_nil) hword.isWordChar hrest).named _

/-- No identifier begins with a character that stands in no word. -/
theorem declines_identifier (htext : ∀ c ∈ text.head?, isWordChar c = false) :
    Declines identifier text :=
  (declines_takeAtLeast Nat.one_pos htext).named _

/-- A keyword is read as it is written, up to the blank behind it. -/
theorem reads_keyword (name : String) (hname : Text.IsWord name.toList) (rest : List Char) :
    Reads (keyword name) (name.toList ++ ' ' :: rest) (· = name.toList) (' ' :: rest) := by
  refine Reads.named name fun pos => ⟨name.toList, pos + Text.byteSize name.toList, ?_, rfl⟩
  have hend : ∀ c ∈ (' ' :: rest).head?, isWordChar c = false := Text.head?_cons (by decide) _
  have hne : name.toList.isEmpty = false := List.isEmpty_eq_false_iff.2 hname.ne_nil
  have hsame : sameLetters name.toList name.toList = true := beq_self_eq_true _
  simp only [Text.takeWhile_append_of_ends hname.isWordChar hend,
    Text.dropWhile_append_of_ends hname.isWordChar hend, hne, hsame, Cursor.after, Bool.not_false,
    Bool.and_self, if_true]

/-- A keyword is declined where another word stands, or none. -/
theorem declines_keyword {name : String}
    (h : text.takeWhile isWordChar = [] ∨
      sameLetters (text.takeWhile isWordChar) name.toList = false) :
    Declines (keyword name) text := by
  refine Declines.named name fun pos => ⟨[], ⟨pos, text⟩, ?_⟩
  have hno : (!(text.takeWhile isWordChar).isEmpty &&
      sameLetters (text.takeWhile isWordChar) name.toList) = false := by
    rcases h with h | h
    · rw [h]; rfl
    · rw [h, Bool.and_false]
  simp only [hno, Bool.false_eq_true, if_false]

/-- The span of a piece does not change what is read. -/
theorem Reads.spanned (hr : Reads r text P rest) :
    Reads (Reader.spanned r) text (fun s => P s.value) rest := by
  refine Reads.position fun start => ?_
  refine hr.bind fun a ha => ?_
  exact Reads.position fun stop => Reads.pure ha

theorem Declines.position {f : Nat → Reader β} (h : ∀ pos, Declines (f pos) text) :
    Declines (Reader.position >>= f) text :=
  fun pos => h pos pos

theorem Declines.spanned (hr : Declines r text) : Declines (Reader.spanned r) text :=
  Declines.position fun _ => hr.bind

/-! ## Texts on which a reader stops -/

/-- The reader stops at this text, wherever it stands. -/
def Fails (r : Reader α) (text : List Char) : Prop := ∀ pos, ∃ stop, r ⟨pos, text⟩ = .error stop

/-- A reader that declines fails. -/
theorem Declines.fails (hr : Declines r text) : Fails r text := by
  intro pos
  obtain ⟨names, place, hread⟩ := hr pos
  exact ⟨.expected names place, hread⟩

/-- A sequence fails behind a first reader that reads something if the rest of it fails there. -/
theorem Reads.bind_fails (hr : Reads r text P left) (hf : ∀ a, P a → Fails (f a) left) :
    Fails (r >>= f) text := by
  intro pos
  obtain ⟨a, mid, hread, ha⟩ := hr pos
  obtain ⟨stop, hnext⟩ := hf a ha mid
  exact ⟨stop, by rw [bind_ok hread, hnext]⟩

theorem Fails.position {f : Nat → Reader β} (h : ∀ pos, Fails (f pos) text) :
    Fails (Reader.position >>= f) text :=
  fun pos => h pos pos

/-- A fault is a failure wherever it is found. -/
theorem fails_fault (fault : Fault) (start : Nat) : Fails (Reader.fault (α := α) fault start) text :=
  fun _ => ⟨_, rfl⟩

/-- A run of a class in front of a text is read, or it is missing. -/
theorem takeAtLeast_cases (p : Char → Bool) (text : List Char) :
    Reads (takeAtLeast 1 p) text (· = text.takeWhile p) (text.dropWhile p) ∨
      Declines (takeAtLeast 1 p) text := by
  by_cases hlength : (text.takeWhile p).length < 1
  · refine Or.inr fun pos => ⟨[], ⟨pos, text⟩, ?_⟩
    simp only [takeAtLeast, if_pos hlength]
  · refine Or.inl fun pos => ⟨text.takeWhile p, pos + Text.byteSize (text.takeWhile p), ?_, rfl⟩
    simp only [takeAtLeast, if_neg hlength]
    rfl

/-- Blanks that must be there are read up to the next visible character, or there are none. -/
theorem someBlanks_cases (text : List Char) :
    Reads someBlanks text (fun _ => True) (text.dropWhile isBlank) ∨ Declines someBlanks text := by
  rcases takeAtLeast_cases isBlank text with h | h
  · exact Or.inl ((h.named _).bind fun _ _ => Reads.pure trivial)
  · exact Or.inr (h.named _).bind

/-- An identifier is the run of word characters that comes next, or there is none. -/
theorem identifier_cases (text : List Char) :
    Reads identifier text (· = text.takeWhile isWordChar) (text.dropWhile isWordChar) ∨
      Declines identifier text :=
  (takeAtLeast_cases isWordChar text).imp (·.named _) (·.named _)

/-- A keyword is a whole word, so it is read up to the end of a word or not at all. -/
theorem keyword_cases (name : String) (text : List Char) :
    Reads (keyword name) text (fun _ => True) (text.dropWhile isWordChar) ∨
      Declines (keyword name) text := by
  by_cases h : (text.takeWhile isWordChar) = [] ∨
      sameLetters (text.takeWhile isWordChar) name.toList = false
  · exact Or.inr (declines_keyword h)
  · rw [not_or, Bool.not_eq_false] at h
    have hne : (text.takeWhile isWordChar).isEmpty = false := List.isEmpty_eq_false_iff.2 h.1
    refine Or.inl (Reads.named name fun pos =>
      ⟨text.takeWhile isWordChar, pos + Text.byteSize (text.takeWhile isWordChar), ?_, trivial⟩)
    simp only [hne, h.2, Bool.not_false, Bool.and_self, if_true]
    rfl

/-! ## Strings -/

/-- A string without escapes is everything up to the next quote. -/
theorem reads_rawString {body : List Char} (hbody : ∀ c ∈ body, c ≠ '"') :
    Reads rawString ('"' :: (body ++ '"' :: rest)) (· = body) rest := by
  intro pos
  have hbreak : Text.breakAt? ['"'] (body ++ '"' :: rest) = some (body, rest) :=
    Text.breakAt?_append hbody rest
  refine ⟨body, (Cursor.moveTo ⟨pos, '"' :: (body ++ '"' :: rest)⟩ rest).pos, ?_, rfl⟩
  simp only [rawString, hbreak]
  rfl

/-- **Any text is read back from its quoted form**, whatever follows the closing quote. -/
theorem reads_escapedString (cs : List Char) :
    Reads escapedString (Text.Quoted.encode cs ++ rest) (· = cs) rest := by
  intro pos
  have hdecode := Text.Quoted.decodeTail?_flatMap_escape cs rest
  refine ⟨cs, (Cursor.moveTo ⟨pos, Text.Quoted.encode cs ++ rest⟩ rest).pos, ?_, rfl⟩
  simp only [escapedString, Text.Quoted.encode, List.cons_append, List.append_assoc,
    List.nil_append, hdecode]
  rfl

end Reader

/-! ## Whole statements -/

namespace Statement

open Reader

variable {α : Type} {r : Reader α} {P : α → Prop} {rest : List Char} {s : Statement}

/-- A statement is read if the reader leaves only blanks. -/
theorem read_of_reads (h : Reads r s.text P rest) (hrest : ∀ c ∈ rest, isBlank c = true) :
    ∃ a, s.read r = .ok a ∧ P a := by
  have hwhole : Reads (do
      let value ← r
      Reader.blanks
      if ← Reader.atEnd then return value else Reader.expected "end of statement")
      s.text P [] := by
    refine h.bind fun a ha => ?_
    rw [← List.append_nil rest]
    refine (reads_blanks hrest (by simp)).bind fun _ _ => ?_
    exact Reads.atEnd (b := true) rfl (Reads.pure ha)
  obtain ⟨a, pos, hread, ha⟩ := hwhole s.offset
  refine ⟨a, ?_, ha⟩
  unfold Statement.read
  simp only [cursor, hread]

/-- A statement on which the reader stops has a problem. -/
theorem read_of_fails (h : Fails r s.text) : ∃ problem, s.read r = .error problem := by
  obtain ⟨stop, hread⟩ := h s.offset
  refine ⟨s.diagnose stop, ?_⟩
  unfold Statement.read
  simp only [cursor, bind_error hread]

/-- A statement that the reader declines has a problem. -/
theorem read_of_declines (h : Declines r s.text) : ∃ problem, s.read r = .error problem :=
  read_of_fails h.fails

end Statement

end Flowchart
