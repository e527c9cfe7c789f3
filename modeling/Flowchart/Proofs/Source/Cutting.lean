import Flowchart.Proofs.Text.Runs
import Flowchart.Source.Statement
import Flowchart.Text.Quoted

/-!
# Texts that are cut where they were joined

A written source is a sequence of pieces, each closed by a character that ends a statement. This
module shows that the two passes in front of every reader do nothing unexpected to such a source:
hiding comments changes nothing, and cutting gives the pieces back.

`Even k due text due'` says what a piece must look like. Read with the closers `due` pending it
leaves `due'` pending, its strings are closed, no comment starts in it, and what would end a
statement stands only where some closer is pending. Both passes are followed along a derivation of
`Even`, once for each of its rules.
-/

namespace Flowchart

open Text (isBlank unlines)

namespace Conventions

variable {k : Conventions}

/-! ## Characters outside strings -/

/-- Everything that starts a comment. -/
def marks (k : Conventions) : List (List Char) :=
  k.lineComments ++ k.lineStartComments ++ (k.blockComment?.map Prod.fst).toList

/-- Some mark of a comment ends with this character. -/
def endsMark (k : Conventions) (c : Char) : Bool := k.marks.any fun m => m.getLast? = some c

/-- The character opens or closes a bracket. -/
def isBracket (k : Conventions) (c : Char) : Bool := k.brackets.any fun b => b.1 = c || b.2 = c

/-- Outside strings the character has no meaning for comments and statements. -/
def isPlain (k : Conventions) (c : Char) : Bool :=
  c ≠ '"' && !k.isSeparator c && !k.endsMark c && !k.isBracket c

/-- The characters that have a meaning for comments and statements. -/
def specials (k : Conventions) : List Char :=
  ['"', '\n'] ++ (if k.semicolons then [';'] else []) ++ k.marks.filterMap List.getLast? ++
    k.brackets.flatMap fun b => [b.1, b.2]

/-- A character that is not special is plain. -/
theorem isPlain_of_not_mem_specials {c : Char} (h : c ∉ k.specials) : k.isPlain c = true := by
  simp only [specials, List.mem_append, List.mem_filterMap, List.mem_flatMap, not_or] at h
  obtain ⟨⟨⟨hquote, hsemi⟩, hmark⟩, hbracket⟩ := h
  have hsep : k.isSeparator c = false := by
    cases hk : k.semicolons <;> simp_all [isSeparator]
  have hends : k.endsMark c = false := by
    rw [endsMark, List.any_eq_false]
    intro m hm hlast
    exact hmark ⟨m, hm, by simpa using hlast⟩
  have hno : k.isBracket c = false := by
    rw [isBracket, List.any_eq_false]
    intro b hb hc
    refine hbracket ⟨b, hb, ?_⟩
    simp only [Bool.or_eq_true, decide_eq_true_eq] at hc
    rcases hc with rfl | rfl <;> simp
  simp_all [isPlain]

/-- A class that leaves out the special characters is a class of plain ones. -/
theorem isPlain_of_class {p : Char → Bool} (hp : ∀ d ∈ k.specials, p d = false) {c : Char}
    (hc : p c = true) : k.isPlain c = true := by
  refine isPlain_of_not_mem_specials fun hmem => ?_
  rw [hp c hmem] at hc
  exact Bool.false_ne_true hc

/-- The marks of comments are short and do not start with a quote, and quotes, brackets and
separators end none of them. -/
structure Tidy (k : Conventions) : Prop where
  length_mark : ∀ m ∈ k.marks, m.length = 1 ∨ m.length = 2
  head_mark : ∀ m ∈ k.marks, m.head? ≠ some '"'
  endsMark_quote : k.endsMark '"' = false
  endsMark_separator : ∀ c, k.isSeparator c = true → k.endsMark c = false
  endsMark_bracket : ∀ b ∈ k.brackets, k.endsMark b.1 = false ∧ k.endsMark b.2 = false
  bracket : ∀ b ∈ k.brackets, (b.1 ≠ '"' ∧ k.isSeparator b.1 = false) ∧
    (b.2 ≠ '"' ∧ k.isSeparator b.2 = false)

/-- A separator is no quote and no bracket. -/
theorem Tidy.separator_ne (hk : k.Tidy) {c : Char} (hc : k.isSeparator c = true) :
    c ≠ '"' ∧ k.brackets.find? (·.1 = c) = none ∧ (k.brackets.any fun b => b.2 = c) = false := by
  refine ⟨?_, ?_, ?_⟩
  · rintro rfl
    simp [isSeparator] at hc
  · rw [List.find?_eq_none]
    intro b hb hbc
    have hsep := (hk.bracket b hb).1.2
    rw [of_decide_eq_true hbc, hc] at hsep
    exact Bool.false_ne_true hsep.symm
  · rw [List.any_eq_false]
    intro b hb hbc
    have hsep := (hk.bracket b hb).2.2
    rw [of_decide_eq_true hbc, hc] at hsep
    exact Bool.false_ne_true hsep.symm

/-- The text runs on in a string without closing it and without ending the line; the flag says that
a backslash stands before it. -/
def staysQuoted (k : Conventions) : (escaped : Bool) → List Char → Bool
  | escaped, [] => !escaped
  | escaped, c :: cs =>
    c ≠ '\n' &&
      if escaped then k.staysQuoted false cs
      else if k.escapes && c = '\\' then k.staysQuoted true cs
      else c ≠ '"' && k.staysQuoted false cs

/-- A fold that may stop goes on behind the first element if that does not stop it. -/
theorem foldlM_cons_of_some {σ α : Type} {f : σ → α → Option σ} {s next : σ} {a : α}
    (h : f s a = some next) (as : List α) : (a :: as).foldlM f s = as.foldlM f next := by
  rw [List.foldlM_cons, h]
  rfl

/-- Going through a list takes its first member and then the rest. -/
theorem foldlM_cons_eq_some_iff {σ α : Type} {f : σ → α → Option σ} {s last : σ} {a : α}
    {as : List α} :
    (a :: as).foldlM f s = some last ↔ ∃ next, f s a = some next ∧ as.foldlM f next = some last := by
  rw [List.foldlM_cons, Option.bind_eq_bind, Option.bind_eq_some_iff]

/-- What a character inside a string does: whether a backslash is pending behind it, or nothing if it
ends the string or its line. -/
def stringStep? (k : Conventions) (escaped : Bool) (c : Char) : Option Bool :=
  if c = '\n' then none
  else if escaped then some false
  else if k.escapes && c = '\\' then some true
  else if c = '"' then none
  else some false

/-- A text stays quoted exactly if going through it never closes the string. -/
theorem staysQuoted_iff {escaped : Bool} {body : List Char} :
    k.staysQuoted escaped body = true ↔ body.foldlM k.stringStep? escaped = some false := by
  induction body generalizing escaped with
  | nil => cases escaped <;> simp [staysQuoted]
  | cons c cs ih =>
    rw [staysQuoted, List.foldlM_cons, stringStep?]
    by_cases hfeed : c = '\n'
    · simp [hfeed]
    cases escaped with
    | true => simpa [hfeed] using ih
    | false =>
      cases hslash : (k.escapes && c = '\\') with
      | true => simpa [hfeed, hslash] using ih
      | false =>
        by_cases hquote : c = '"'
        · simp [hquote]
        · simpa [hfeed, hslash, hquote] using ih

/-- A text stays quoted if its first character and the rest of it do. -/
theorem staysQuoted_cons_iff {escaped : Bool} {c : Char} {cs : List Char} :
    k.staysQuoted escaped (c :: cs) = true ↔
      ∃ next, k.stringStep? escaped c = some next ∧ k.staysQuoted next cs = true := by
  rw [staysQuoted_iff, foldlM_cons_eq_some_iff]
  simp only [staysQuoted_iff]

/-- The string stays open behind any character but a line feed and a quote that closes it. -/
theorem stringStep?_eq_some_iff {escaped next : Bool} {c : Char} :
    k.stringStep? escaped c = some next ↔ c ≠ '\n' ∧
      (escaped = true ∧ next = false ∨ escaped = false ∧ (k.escapes && c = '\\') = true ∧ next = true ∨
        escaped = false ∧ (k.escapes && c = '\\') = false ∧ c ≠ '"' ∧ next = false) := by
  rw [stringStep?]
  by_cases hfeed : c = '\n'
  · simp [hfeed]
  · by_cases hslash : (k.escapes && c = '\\') = true <;> by_cases hquote : c = '"' <;>
      cases escaped <;> simp [hfeed, hslash, hquote, eq_comm]

/-- Only a line feed, and a quote that is not escaped, ends a string. -/
theorem stringStep?_eq_none_iff {escaped : Bool} {c : Char} :
    k.stringStep? escaped c = none ↔ c = '\n' ∨ c = '"' ∧ escaped = false := by
  rw [stringStep?]
  by_cases hfeed : c = '\n'
  · simp [hfeed]
  · by_cases hquote : c = '"'
    · cases escaped <;> simp [hquote]
    · cases escaped <;> simp [hfeed, hquote]
      split <;> simp

/-- A string is put together from the written forms of its characters. -/
theorem staysQuoted_flatMap {write : Char → List Char}
    (hwrite : ∀ c rest, k.staysQuoted false rest = true → k.staysQuoted false (write c ++ rest) = true)
    (cs : List Char) : k.staysQuoted false (cs.flatMap write) = true := by
  induction cs with
  | nil => rfl
  | cons c cs ih =>
    rw [List.flatMap_cons]
    exact hwrite c _ ih

/-- A text without quotes and line feeds keeps the string open where backslashes do not count. -/
theorem staysQuoted_of_forall (hk : k.escapes = false) {body : List Char}
    (h : ∀ c ∈ body, c ≠ '"' ∧ c ≠ '\n') : k.staysQuoted false body = true := by
  induction body with
  | nil => rfl
  | cons c cs ih =>
    obtain ⟨hquote, hfeed⟩ := h c List.mem_cons_self
    rw [staysQuoted, hk, ih fun d hd => h d (List.mem_cons_of_mem c hd)]
    simp [hquote, hfeed]

/-- An escaped character keeps the string open where backslashes count. -/
theorem staysQuoted_escape_append (hk : k.escapes = true) (c : Char) (rest : List Char)
    (hrest : k.staysQuoted false rest = true) :
    k.staysQuoted false (Text.Quoted.escape c ++ rest) = true := by
  unfold Text.Quoted.escape
  split
  · simp [staysQuoted, hk, hrest]
  · simp [staysQuoted, hk, hrest]
  · simp [staysQuoted, hk, hrest]
  · simp [staysQuoted, hk, hrest]
  · next hquote hslash hfeed _ =>
    have hplain : c ≠ '"' ∧ c ≠ '\\' ∧ c ≠ '\n' := ⟨hquote, hslash, hfeed⟩
    simp [staysQuoted, hplain, hrest]

/-- The texts that are read with the closers `due` pending and leave the closers `due'`. -/
inductive Even (k : Conventions) : List Char → List Char → List Char → Prop
  | nil (due : List Char) : Even k due [] due
  | plain {c : Char} {cs due due' : List Char} :
      k.isPlain c = true → Even k due cs due' → Even k due (c :: cs) due'
  | separator {c : Char} {cs due due' : List Char} :
      k.isSeparator c = true → due ≠ [] → Even k due cs due' → Even k due (c :: cs) due'
  | opened {c closer : Char} {cs due due' : List Char} :
      k.brackets.find? (·.1 = c) = some (c, closer) → Even k (closer :: due) cs due' →
      Even k due (c :: cs) due'
  | closed {c : Char} {cs due due' : List Char} :
      k.brackets.find? (·.1 = c) = none → (k.brackets.any fun b => b.2 = c) = true →
      Even k due cs due' → Even k (c :: due) (c :: cs) due'
  | quoted {body cs due due' : List Char} :
      k.staysQuoted false body = true → Even k due cs due' →
      Even k due ('"' :: (body ++ '"' :: cs)) due'

namespace Even

variable {due due' due'' s t : List Char}

/-- **Even pieces stand behind each other**: what the first leaves open the second one closes. -/
theorem append (hs : Even k due s due') (ht : Even k due' t due'') : Even k due (s ++ t) due'' := by
  induction hs with
  | nil => exact ht
  | plain hc _ ih => exact .plain hc (ih ht)
  | separator hc hdue _ ih => exact .separator hc hdue (ih ht)
  | opened hc _ ih => exact .opened hc (ih ht)
  | closed hc hcloses _ ih => exact .closed hc hcloses (ih ht)
  | quoted hbody _ ih =>
    rw [List.cons_append, List.append_assoc, List.cons_append]
    exact .quoted hbody (ih ht)

/-- Characters without meaning change nothing. -/
theorem of_plain (h : ∀ c ∈ s, k.isPlain c = true) : Even k due s due := by
  induction s with
  | nil => exact .nil due
  | cons c cs ih =>
    exact .plain (h c List.mem_cons_self) (ih fun d hd => h d (List.mem_cons_of_mem c hd))

/-- Inside brackets separators may stand too. -/
theorem of_inner (hdue : due ≠ []) (h : ∀ c ∈ s, k.isPlain c = true ∨ k.isSeparator c = true) :
    Even k due s due := by
  induction s with
  | nil => exact .nil due
  | cons c cs ih =>
    have hcs := ih fun d hd => h d (List.mem_cons_of_mem c hd)
    rcases h c List.mem_cons_self with hc | hc
    · exact .plain hc hcs
    · exact .separator hc hdue hcs

/-- A whole string. -/
theorem of_quoted {body : List Char} (h : k.staysQuoted false body = true) :
    Even k due ('"' :: (body ++ ['"'])) due :=
  .quoted h (.nil due)

/-- A string in which a quote, a backslash and a line feed are escaped. -/
theorem of_encode (hk : k.escapes = true) (cs : List Char) :
    Even k due (Text.Quoted.encode cs) due :=
  of_quoted (staysQuoted_flatMap (staysQuoted_escape_append hk) cs)

/-- Parts that change nothing, joined by a text that changes nothing. -/
theorem intercalate {separator : List Char} {parts : List (List Char)} (hsep : Even k due separator due)
    (h : ∀ part ∈ parts, Even k due part due) : Even k due (separator.intercalate parts) due := by
  induction parts with
  | nil => exact .nil due
  | cons part rest ih =>
    have hpart := h part List.mem_cons_self
    cases rest with
    | nil => rw [List.intercalate_singleton]; exact hpart
    | cons next rest =>
      rw [List.intercalate_cons_cons]
      exact (hpart.append hsep).append (ih fun p hp => h p (List.mem_cons_of_mem part hp))

end Even

/-! ## Hiding comments -/

/-- Hiding the comments of this text changes nothing. -/
def Keeps (k : Conventions) (mode : CommentMode) (text : List Char) : Prop :=
  ∀ pos, k.hideFrom pos mode text = .ok text

/-- What stays one character further on stays here, if the character does. -/
theorem Keeps.cons {mode next : CommentMode} {c : Char} {cs : List Char}
    (hstep : ∀ pos, k.commentStep pos mode c cs = (next, false)) (h : k.Keeps next cs) :
    k.Keeps mode (c :: cs) := by
  intro pos
  rw [hideFrom, hstep pos]
  simp only [h (pos + c.utf8Size)]
  rfl

/-- No mark starts with a character that ends none and that none of their ends follows. -/
theorem isPrefixOf_mark_eq_false (hk : k.Tidy) {m : List Char} (hm : m ∈ k.marks) {c : Char}
    {cs : List Char} (hc : k.endsMark c = false) (hcs : ∀ d ∈ cs.head?, k.endsMark d = false) :
    m.isPrefixOf (c :: cs) = false := by
  have hends : ∀ d, k.endsMark d = false → m.getLast? ≠ some d := by
    intro d hd hlast
    rw [endsMark, List.any_eq_false] at hd
    exact hd m hm (by simpa using hlast)
  rcases hk.length_mark m hm with hlen | hlen
  -- a mark of one character would be `c` itself
  · obtain ⟨a, rfl⟩ := List.length_eq_one_iff.1 hlen
    refine Text.isPrefixOf_eq_false_of_head fun d hd hda => hends c hc ?_
    obtain rfl : c = d := by simpa using hd
    rw [hda]
    rfl
  -- the second of two characters would stand behind `c`
  · obtain ⟨a, b, rfl⟩ := List.length_eq_two.1 hlen
    have htail : [b].isPrefixOf cs = false := by
      refine Text.isPrefixOf_eq_false_of_head fun d hd hdb => hends d (hcs d hd) ?_
      rw [hdb]
      rfl
    rw [List.isPrefixOf_cons_cons, htail, Bool.and_false]

/-- Where no mark starts, the reader of comments goes on, into a string if a quote stands there. -/
theorem commentStep_code {c : Char} {cs : List Char}
    (hmark : ∀ m ∈ k.marks, m.isPrefixOf (c :: cs) = false) (lineStart : Bool) :
    ∃ lineStart', ∀ pos, k.commentStep pos (.code 0 lineStart) c cs =
      (if c = '"' then .quoted false else .code 0 lineStart', false) := by
  have hblock : k.startsBlockComment? (c :: cs) = none := by
    rw [startsBlockComment?, Option.filter_eq_none_iff]
    intro b hb hstart
    have hmem : b.1 ∈ k.marks := by simp [marks, hb]
    rw [hmark b.1 hmem] at hstart
    exact Bool.false_ne_true hstart
  have hline : k.startsLineComment lineStart (c :: cs) = false := by
    rw [startsLineComment, Bool.or_eq_false_iff, Bool.and_eq_false_iff]
    refine ⟨?_, Or.inr ?_⟩
    · rw [List.any_eq_false]
      intro m hm
      rw [hmark m (by simp [marks, hm])]
      exact Bool.false_ne_true
    · rw [List.any_eq_false]
      intro m hm
      rw [hmark m (by simp [marks, hm])]
      exact Bool.false_ne_true
  by_cases hfeed : c = '\n'
  · refine ⟨true, fun pos => ?_⟩
    rw [commentStep, if_pos hfeed, if_neg (by rw [hfeed]; decide)]
  · refine ⟨lineStart && isBlank c, fun pos => ?_⟩
    rw [commentStep, if_neg hfeed, hblock]
    simp only [hline, Bool.false_eq_true, if_false]
    split <;> rfl

/-- A character other than a quote that ends no mark is kept, if none of their ends follows. -/
theorem Keeps.code (hk : k.Tidy) {c : Char} {cs : List Char} (hquote : c ≠ '"')
    (hc : k.endsMark c = false) (hcs : ∀ d ∈ cs.head?, k.endsMark d = false)
    (h : ∀ lineStart, k.Keeps (.code 0 lineStart) cs) (lineStart : Bool) :
    k.Keeps (.code 0 lineStart) (c :: cs) := by
  obtain ⟨lineStart', hstep⟩ := commentStep_code
    (fun m hm => isPrefixOf_mark_eq_false hk hm hc hcs) lineStart
  exact Keeps.cons (fun pos => by rw [hstep pos, if_neg hquote]) (h lineStart')

/-- No mark starts with a quote. -/
theorem Tidy.isPrefixOf_quote (hk : k.Tidy) {m : List Char} (hm : m ∈ k.marks) (cs : List Char) :
    m.isPrefixOf ('"' :: cs) = false := by
  have hhead := hk.head_mark m hm
  have hlen := hk.length_mark m hm
  cases m with
  | nil => simp at hlen
  | cons a ms =>
    refine Text.isPrefixOf_eq_false_of_head fun d hd hda => hhead ?_
    obtain rfl : '"' = d := by simpa using hd
    rw [hda]
    rfl

/-- A quote opens a string. -/
theorem Tidy.commentStep_opening (hk : k.Tidy) (pos : Nat) (lineStart : Bool) (cs : List Char) :
    k.commentStep pos (.code 0 lineStart) '"' cs = (.quoted false, false) := by
  obtain ⟨lineStart', hstep⟩ := commentStep_code (fun m hm => hk.isPrefixOf_quote hm cs) lineStart
  rw [hstep pos, if_pos rfl]

/-- A string that stays inside its quote stays behind the quote that opens it. -/
theorem Keeps.quote (hk : k.Tidy) {cs : List Char} (h : k.Keeps (.quoted false) cs)
    (lineStart : Bool) : k.Keeps (.code 0 lineStart) ('"' :: cs) :=
  Keeps.cons (fun pos => hk.commentStep_opening pos lineStart cs) h

/-- A character of a string stays visible. -/
theorem commentStep_of_stringStep? {escaped next : Bool} {c : Char}
    (h : k.stringStep? escaped c = some next) (pos : Nat) (cs : List Char) :
    k.commentStep pos (.quoted escaped) c cs = (.quoted next, false) := by
  obtain ⟨hfeed, ⟨rfl, rfl⟩ | ⟨rfl, hslash, rfl⟩ | ⟨rfl, hslash, hclose, rfl⟩⟩ :=
    stringStep?_eq_some_iff.1 h
  · simp [commentStep, hfeed]
  · simp [commentStep, hfeed, hslash]
  · simp [commentStep, hfeed, hslash, hclose]

/-- A closing quote leads back to code. -/
theorem commentStep_quote (pos : Nat) (cs : List Char) :
    k.commentStep pos (.quoted false) '"' cs = (.code 0 false, false) := by
  simp [commentStep]

/-- A string is kept up to its closing quote. -/
theorem Keeps.string {escaped : Bool} {body rest : List Char}
    (hbody : k.staysQuoted escaped body = true) (h : k.Keeps (.code 0 false) rest) :
    k.Keeps (.quoted escaped) (body ++ '"' :: rest) := by
  induction body generalizing escaped with
  | nil =>
    obtain rfl : escaped = false := by simpa [staysQuoted] using hbody
    exact Keeps.cons (fun pos => commentStep_quote pos rest) h
  | cons c cs ih =>
    obtain ⟨next, hnext, hcs⟩ := staysQuoted_cons_iff.1 hbody
    exact Keeps.cons (fun pos => commentStep_of_stringStep? hnext pos _) (ih hcs)

/-- What starts an even text ends no mark of a comment. -/
theorem Even.endsMark_head (hk : k.Tidy) {due due' text : List Char} (h : Even k due text due') :
    ∀ c ∈ text.head?, k.endsMark c = false := by
  intro d hd
  cases h with
  | nil => simp at hd
  | @plain c cs _ _ hc _ =>
    obtain rfl : c = d := by simpa using hd
    rw [isPlain, Bool.and_eq_true, Bool.and_eq_true] at hc
    simpa using hc.1.2
  | @separator c cs _ _ hc _ _ =>
    obtain rfl : c = d := by simpa using hd
    exact hk.endsMark_separator c hc
  | @opened c closer cs _ _ hc _ =>
    obtain rfl : c = d := by simpa using hd
    exact (hk.endsMark_bracket _ (List.mem_of_find?_eq_some hc)).1
  | @closed c cs _ _ _ hcloses _ =>
    obtain rfl : c = d := by simpa using hd
    obtain ⟨b, hb, hbc⟩ := List.any_eq_true.1 hcloses
    rw [← of_decide_eq_true hbc]
    exact (hk.endsMark_bracket b hb).2
  | quoted _ _ =>
    obtain rfl : '"' = d := by simpa using hd
    exact hk.endsMark_quote

/-- **No comment starts in an even text.** -/
theorem Even.keeps (hk : k.Tidy) {due due' text rest : List Char} (h : Even k due text due')
    (hhead : ∀ c ∈ rest.head?, k.endsMark c = false)
    (hrest : ∀ lineStart, k.Keeps (.code 0 lineStart) rest) (lineStart : Bool) :
    k.Keeps (.code 0 lineStart) (text ++ rest) := by
  -- the characters of a comment mark may be spread over two rules, so each rule also needs to know
  -- what stands behind its own character
  have hnext : ∀ {a b s : List Char}, Even k a s b → ∀ c ∈ (s ++ rest).head?,
      k.endsMark c = false :=
    fun hs => Text.forall_head?_append (hs.endsMark_head hk) hhead
  induction h generalizing lineStart with
  | nil => exact hrest lineStart
  | plain hc hcs ih =>
    have hquote := hc
    rw [isPlain, Bool.and_eq_true, Bool.and_eq_true, Bool.and_eq_true] at hquote
    exact Keeps.code hk (by simpa using hquote.1.1.1) ((Even.plain hc hcs).endsMark_head hk _ rfl)
      (hnext hcs) ih lineStart
  | @separator c cs due due' hc hdue hcs ih =>
    refine Keeps.code hk ?_ (hk.endsMark_separator _ hc) (hnext hcs) ih lineStart
    rintro rfl
    simp [isSeparator] at hc
  | opened hc hcs ih =>
    have hmem := List.mem_of_find?_eq_some hc
    exact Keeps.code hk (hk.bracket _ hmem).1.1 (hk.endsMark_bracket _ hmem).1 (hnext hcs) ih lineStart
  | @closed c cs due due' hc hcloses hcs ih =>
    obtain ⟨b, hb, hbc⟩ := List.any_eq_true.1 hcloses
    obtain rfl : b.2 = c := of_decide_eq_true hbc
    exact Keeps.code hk (hk.bracket b hb).2.1 (hk.endsMark_bracket b hb).2 (hnext hcs) ih lineStart
  | quoted hbody hcs ih =>
    rw [List.cons_append, List.append_assoc, List.cons_append]
    exact Keeps.quote hk (Keeps.string hbody (ih false)) lineStart

/-- A separator behind a text whose comments are kept. -/
theorem Keeps.separator (hk : k.Tidy) {c : Char} {cs : List Char} (hc : k.isSeparator c = true)
    (hcs : ∀ d ∈ cs.head?, k.endsMark d = false) (h : ∀ lineStart, k.Keeps (.code 0 lineStart) cs)
    (lineStart : Bool) : k.Keeps (.code 0 lineStart) (c :: cs) := by
  refine Keeps.code hk ?_ (hk.endsMark_separator c hc) hcs h lineStart
  rintro rfl
  simp [isSeparator] at hc

/-! ## Cutting -/

/-- With the closers `due` pending the text is cut into a first piece and later ones. -/
def Cuts (k : Conventions) (due text piece : List Char) (later : List (List Char)) : Prop :=
  ∀ pos (state : CutState), state.quote = none → state.due.map Prod.fst = due →
    ∃ statements, k.cut pos state text = .ok (piece, statements) ∧
      statements.map Statement.text = later

/-- Nothing is cut into an empty piece. -/
theorem Cuts.nil : k.Cuts [] [] [] [] := by
  intro pos state hquote hdue
  refine ⟨[], ?_, rfl⟩
  rw [cut, cutEnd, hquote, List.map_eq_nil_iff.1 hdue]

/-- A step that ends no statement puts its character in front of the first piece. -/
theorem cut_cons {pos : Nat} {state next : CutState} {c : Char} {cs piece : List Char}
    {statements : List Statement} (hstep : k.cutStep pos state c = .ok (next, false))
    (h : k.cut (pos + c.utf8Size) next cs = .ok (piece, statements)) :
    k.cut pos state (c :: cs) = .ok (c :: piece, statements) := by
  simp only [cut, hstep, h]
  rfl

/-- A character that leaves the string open only changes the flag. -/
theorem cutStep_of_stringStep? {state : CutState} {openedAt : Nat} {escaped next : Bool} {c : Char}
    (hquote : state.quote = some (openedAt, escaped)) (h : k.stringStep? escaped c = some next)
    (pos : Nat) :
    k.cutStep pos state c = .ok ({ state with quote := some (openedAt, next) }, false) := by
  obtain ⟨hfeed, ⟨rfl, rfl⟩ | ⟨rfl, hslash, rfl⟩ | ⟨rfl, hslash, hclose, rfl⟩⟩ :=
    stringStep?_eq_some_iff.1 h
  · simp [cutStep, hquote, hfeed]
  · simp [cutStep, hquote, hfeed, hslash]
  · simp only [cutStep, hquote, hfeed, hslash, hclose, if_false, Bool.false_eq_true]
    rw [← hquote]

/-- A closing quote ends the string, and the cut goes on. -/
theorem cutStep_quote {state : CutState} {openedAt : Nat}
    (hquote : state.quote = some (openedAt, false)) (pos : Nat) :
    k.cutStep pos state '"' = .ok ({ state with quote := none }, false) := by
  simp [cutStep, hquote]

/-- A string is cut nowhere. -/
theorem cut_string {body rest piece : List Char} {later : List (List Char)} {escaped : Bool}
    (hbody : k.staysQuoted escaped body = true) {due : List Char}
    (h : k.Cuts due rest piece later) (pos openedAt : Nat) (state : CutState)
    (hquote : state.quote = some (openedAt, escaped)) (hdue : state.due.map Prod.fst = due) :
    ∃ statements, k.cut pos state (body ++ '"' :: rest) = .ok (body ++ '"' :: piece, statements) ∧
      statements.map Statement.text = later := by
  induction body generalizing escaped pos state with
  | nil =>
    obtain rfl : escaped = false := by simpa [staysQuoted] using hbody
    obtain ⟨statements, hcut, hlater⟩ :=
      h (pos + '"'.utf8Size) { state with quote := none } rfl hdue
    exact ⟨statements, cut_cons (cutStep_quote hquote pos) hcut, hlater⟩
  | cons c cs ih =>
    obtain ⟨next, hnext, hcs⟩ := staysQuoted_cons_iff.1 hbody
    obtain ⟨statements, hcut, hlater⟩ := ih hcs (pos + c.utf8Size)
      { state with quote := some (openedAt, next) } rfl hdue
    exact ⟨statements, cut_cons (cutStep_of_stringStep? hquote hnext pos) hcut, hlater⟩

/-- A character without meaning changes nothing. -/
theorem cutStep_of_isPlain {pos : Nat} {state : CutState} {c : Char} (hquote : state.quote = none)
    (hc : k.isPlain c = true) : k.cutStep pos state c = .ok (state, false) := by
  simp only [isPlain, Bool.and_eq_true, Bool.not_eq_true', isBracket, List.any_eq_false,
    Bool.or_eq_true, not_or, decide_eq_true_eq] at hc
  obtain ⟨⟨⟨hne, hsep⟩, -⟩, hbracket⟩ := hc
  have hopens : k.brackets.find? (·.1 = c) = none := by
    rw [List.find?_eq_none]
    intro b hb
    simpa using (hbracket b hb).1
  have hcloses : (k.brackets.any fun b => b.2 = c) = false := by
    rw [List.any_eq_false]
    intro b hb
    simpa using (hbracket b hb).2
  simp [cutStep, hquote, hne, hopens, hcloses, hsep]

/-- A separator ends a statement where nothing is pending. -/
theorem cutStep_of_isSeparator (hk : k.Tidy) {pos : Nat} {state : CutState} {c : Char}
    (hquote : state.quote = none) (hc : k.isSeparator c = true) :
    k.cutStep pos state c = .ok (state, decide (state.due = [])) := by
  obtain ⟨hclose, hopens, hcloses⟩ := hk.separator_ne hc
  cases hdue : state.due <;> simp [cutStep, hquote, hclose, hopens, hcloses, hdue, hc]

/-- **An even text is cut nowhere.** -/
theorem Even.cuts (hk : k.Tidy) {due due' text rest piece : List Char} {later : List (List Char)}
    (h : Even k due text due') (hrest : k.Cuts due' rest piece later) :
    k.Cuts due (text ++ rest) (text ++ piece) later := by
  -- each rule is one step of the cutter, whose pending closers are those of the rule
  induction h with
  | nil => exact hrest
  | @plain c cs due _ hc _ ih =>
    intro pos state hquote hdue
    obtain ⟨statements, hcut, hlater⟩ := ih hrest (pos + c.utf8Size) state hquote hdue
    exact ⟨statements, cut_cons (cutStep_of_isPlain hquote hc) hcut, hlater⟩
  | @separator c cs due _ hc hne _ ih =>
    intro pos state hquote hdue
    obtain ⟨statements, hcut, hlater⟩ := ih hrest (pos + c.utf8Size) state hquote hdue
    have hpending : state.due ≠ [] := fun hnil => hne (by rw [← hdue, hnil]; rfl)
    refine ⟨statements, cut_cons ?_ hcut, hlater⟩
    rw [cutStep_of_isSeparator hk hquote hc, decide_eq_false hpending]
  | @opened c closer cs due _ hc _ ih =>
    intro pos state hquote hdue
    obtain ⟨statements, hcut, hlater⟩ := ih hrest (pos + c.utf8Size)
      { state with due := (closer, pos) :: state.due } hquote (by simp [hdue])
    refine ⟨statements, cut_cons ?_ hcut, hlater⟩
    have hne := (hk.bracket _ (List.mem_of_find?_eq_some hc)).1.1
    simp [cutStep, hquote, hne, hc]
  | @closed c cs due _ hc hcloses _ ih =>
    intro pos state hquote hdue
    obtain ⟨⟨expected, openedAt⟩, pending, hstate, rfl, hpending⟩ := List.map_eq_cons_iff.1 hdue
    obtain ⟨statements, hcut, hlater⟩ := ih hrest (pos + expected.utf8Size)
      { state with due := pending } hquote hpending
    refine ⟨statements, cut_cons ?_ hcut, hlater⟩
    obtain ⟨b, hb, hbc⟩ := List.any_eq_true.1 hcloses
    have hbc : b.2 = expected := of_decide_eq_true hbc
    have hne : expected ≠ '"' := by
      rw [← hbc]
      exact (hk.bracket b hb).2.1
    simp only [cutStep, hquote, hne, hc, hcloses, hstate, if_false, if_true]
  | @quoted body cs due _ hbody _ ih =>
    intro pos state hquote hdue
    obtain ⟨statements, hcut, hlater⟩ := cut_string hbody (ih hrest) (pos + '"'.utf8Size) pos
      { state with quote := some (pos, false) } rfl hdue
    rw [List.cons_append, List.append_assoc, List.cons_append, List.cons_append,
      List.append_assoc, List.cons_append]
    exact ⟨statements, cut_cons (by simp [cutStep, hquote]) hcut, hlater⟩

/-- A separator with nothing pending ends a piece. -/
theorem Cuts.separator (hk : k.Tidy) {c : Char} {cs piece : List Char} {later : List (List Char)}
    (hc : k.isSeparator c = true) (h : k.Cuts [] cs piece later) :
    k.Cuts [] (c :: cs) [] (piece :: later) := by
  intro pos state hquote hdue
  obtain ⟨statements, hcut, hlater⟩ := h (pos + c.utf8Size) state hquote hdue
  have hstep : k.cutStep pos state c = .ok (state, true) := by
    rw [cutStep_of_isSeparator hk hquote hc, decide_eq_true (List.map_eq_nil_iff.1 hdue)]
  refine ⟨⟨piece, pos + c.utf8Size⟩ :: statements, ?_, by simp [hlater]⟩
  simp only [cut, hstep, hcut]
  rfl

/-! ## Pieces and their separators -/

/-- Pieces, each with the separator behind it. -/
def pieceText (pieces : List (List Char × Char)) : List Char :=
  pieces.flatMap fun p => p.1 ++ [p.2]

/-- Pieces are joined one by one, each with its separator. -/
theorem pieceText_cons (piece : List Char) (c : Char) (rest : List (List Char × Char)) :
    pieceText ((piece, c) :: rest) = piece ++ c :: pieceText rest := by
  simp [pieceText]

/-- Every piece is even, and a separator closes it. -/
def EvenPieces (k : Conventions) (pieces : List (List Char × Char)) : Prop :=
  ∀ p ∈ pieces, Even k [] p.1 [] ∧ k.isSeparator p.2 = true

variable {pieces : List (List Char × Char)}

/-- What starts even pieces ends no mark of a comment. -/
theorem EvenPieces.endsMark_head (hk : k.Tidy) (h : k.EvenPieces pieces) :
    ∀ c ∈ (pieceText pieces).head?, k.endsMark c = false := by
  cases pieces with
  | nil => simp [pieceText]
  | cons p rest =>
    obtain ⟨heven, hsep⟩ := h p List.mem_cons_self
    rw [pieceText_cons]
    exact Text.forall_head?_append (heven.endsMark_head hk)
      (Text.head?_cons (hk.endsMark_separator _ hsep) _)

/-- **No comment begins in even pieces**, so all of them stay visible. -/
theorem EvenPieces.keeps (hk : k.Tidy) (h : k.EvenPieces pieces) (lineStart : Bool) :
    k.Keeps (.code 0 lineStart) (pieceText pieces) := by
  induction pieces generalizing lineStart with
  | nil => exact fun pos => rfl
  | cons p rest ih =>
    obtain ⟨heven, hsep⟩ := h p List.mem_cons_self
    have hrest : k.EvenPieces rest := fun q hq => h q (List.mem_cons_of_mem p hq)
    rw [pieceText_cons]
    exact heven.keeps hk (Text.head?_cons (hk.endsMark_separator _ hsep) _)
      (Keeps.separator hk hsep (hrest.endsMark_head hk) (ih hrest)) lineStart

/-- **Even pieces are cut where they were joined**; behind the last separator there is an empty piece. -/
theorem EvenPieces.cuts (hk : k.Tidy) (h : k.EvenPieces pieces) :
    ∃ piece later, k.Cuts [] (pieceText pieces) piece later ∧
      piece :: later = pieces.map Prod.fst ++ [[]] := by
  -- behind the last separator one more piece is left, the empty one
  induction pieces with
  | nil => exact ⟨[], [], Cuts.nil, rfl⟩
  | cons p rest ih =>
    obtain ⟨heven, hsep⟩ := h p List.mem_cons_self
    obtain ⟨piece, later, hcuts, heq⟩ := ih fun q hq => h q (List.mem_cons_of_mem p hq)
    refine ⟨p.1, piece :: later, ?_, by rw [heq]; rfl⟩
    rw [pieceText_cons]
    have hline := heven.cuts hk (Cuts.separator hk hsep hcuts)
    rwa [List.append_nil] at hline

/-- **Hiding the comments of even pieces changes nothing.** -/
theorem EvenPieces.hideComments_eq (hk : k.Tidy) (h : k.EvenPieces pieces) (base : Nat) :
    k.hideComments base (pieceText pieces) = .ok (pieceText pieces) := by
  rw [hideComments, h.keeps hk true base]

/-- **The statements of even pieces are the trimmed pieces**, the blank ones left out. -/
theorem EvenPieces.statements_eq (hk : k.Tidy) (h : k.EvenPieces pieces) (base : Nat) :
    ∃ statements, k.statements base (pieceText pieces) = .ok statements ∧
      statements.map Statement.text =
        (pieces.map fun p => Text.trim p.1).filter fun text => !text.isEmpty := by
  obtain ⟨piece, later, hcuts, heq⟩ := h.cuts hk
  obtain ⟨cutLater, hcut, hlater⟩ := hcuts base {} rfl rfl
  refine ⟨_, by rw [statements, hcut], ?_⟩
  rw [← hlater] at heq
  have htexts : ((⟨piece, base⟩ :: cutLater).map Statement.trim).map Statement.text =
      (pieces.map Prod.fst ++ [[]]).map Text.trim := by
    rw [← heq, List.map_map, List.map_cons, List.map_cons, List.map_map]
    rfl
  have hfilter : ∀ ss : List Statement,
      (ss.filter fun s => !s.text.isEmpty).map Statement.text =
        (ss.map Statement.text).filter fun text => !text.isEmpty := by
    intro ss
    rw [List.filter_map]
    rfl
  rw [hfilter, htexts, List.map_append, List.filter_append, List.map_map]
  simp [Text.trim, Text.trimStart, Text.trimEnd, Function.comp_def]

/-- The text of a statement: it is even, whatever is pending, and blanks stand at neither end. -/
structure IsStatement (k : Conventions) (text : List Char) : Prop where
  even : ∀ due, Even k due text due
  first : ∃ c ∈ text.head?, isBlank c = false
  last : ∃ c ∈ text.getLast?, isBlank c = false

/-- A statement is not empty. -/
theorem IsStatement.isEmpty_eq_false {text : List Char} (h : k.IsStatement text) :
    text.isEmpty = false := by
  obtain ⟨c, hc, -⟩ := h.first
  cases text with
  | nil => simp at hc
  | cons d ds => rfl

/-- A string in which a quote, a backslash and a line feed are escaped. -/
theorem isStatement_encode (hk : k.escapes = true) (cs : List Char) :
    k.IsStatement (Text.Quoted.encode cs) where
  even _ := Even.of_encode hk cs
  first := ⟨'"', rfl, rfl⟩
  last := ⟨'"', by
    rw [Text.Quoted.encode, ← List.cons_append, List.getLast?_concat, Option.mem_def], rfl⟩

/-- A run of characters without meaning, none of them blank. -/
theorem isStatement_of_plain {text : List Char} (hne : text ≠ [])
    (h : ∀ c ∈ text, k.isPlain c = true ∧ isBlank c = false) : k.IsStatement text where
  even _ := Even.of_plain fun c hc => (h c hc).1
  first := ⟨text.head hne, List.head?_eq_some_head hne, (h _ (List.head_mem hne)).2⟩
  last := ⟨text.getLast hne, List.getLast?_eq_some_getLast hne, (h _ (List.getLast_mem hne)).2⟩

/-- A word, where no character of a word has a meaning. -/
theorem isStatement_of_isWord (hspecials : ∀ c ∈ k.specials, Text.isWordChar c = false)
    {word : List Char} (h : Text.IsWord word) : k.IsStatement word :=
  isStatement_of_plain h.ne_nil fun c hc =>
    ⟨isPlain_of_class hspecials (h.isWordChar c hc), h.isBlank_eq_false c hc⟩

/-- Two statements with characters without meaning between them. -/
theorem IsStatement.append {s t : List Char} (hs : k.IsStatement s) (between : List Char)
    (hbetween : ∀ c ∈ between, k.isPlain c = true) (ht : k.IsStatement t) :
    k.IsStatement (s ++ (between ++ t)) where
  even due := (hs.even due).append ((Even.of_plain hbetween).append (ht.even due))
  first := by
    obtain ⟨c, hc, hfirst⟩ := hs.first
    exact ⟨c, by rw [List.head?_append, Option.mem_def.1 hc]; rfl, hfirst⟩
  last := by
    obtain ⟨c, hc, hlast⟩ := ht.last
    exact ⟨c, by rw [List.getLast?_append, List.getLast?_append, Option.mem_def.1 hc]; rfl, hlast⟩

/-- Trimming drops the indentation of a statement and nothing else. -/
theorem IsStatement.trim_indented {text blank : List Char} (h : k.IsStatement text)
    (hblank : ∀ c ∈ blank, isBlank c = true) : Text.trim (blank ++ text) = text := by
  obtain ⟨c, hc, hfirst⟩ := h.first
  obtain ⟨d, hd, hlast⟩ := h.last
  refine Text.trim_indented hblank ?_ ?_
  · intro c' hc'
    rwa [← Option.mem_unique hc hc']
  · intro d' hd'
    rwa [← Option.mem_unique hd hd']

/-- Lines are pieces that a line feed closes. -/
theorem unlines_eq_pieceText (ls : List (List Char)) :
    unlines ls = pieceText (ls.map fun line => (line, '\n')) := by
  rw [unlines, pieceText, List.flatMap_map]

/-- Lines that are even by themselves make even pieces. -/
theorem evenPieces_of_lines {ls : List (List Char)} (h : ∀ line ∈ ls, Even k [] line []) :
    k.EvenPieces (ls.map fun line => (line, '\n')) := by
  intro p hp
  obtain ⟨line, hline, rfl⟩ := List.mem_map.1 hp
  exact ⟨h line hline, by simp [isSeparator]⟩

/-- **Lines that each hold one statement behind some blanks are cut into these statements.** -/
theorem statements_indented (hk : k.Tidy) {ls : List (List Char × List Char)}
    (hblank : ∀ p ∈ ls, ∀ c ∈ p.1, isBlank c = true ∧ k.isPlain c = true)
    (h : ∀ p ∈ ls, k.IsStatement p.2) (base : Nat) :
    k.hideComments base (unlines (ls.map fun p => p.1 ++ p.2)) =
        .ok (unlines (ls.map fun p => p.1 ++ p.2)) ∧
      ∃ statements, k.statements base (unlines (ls.map fun p => p.1 ++ p.2)) = .ok statements ∧
        statements.map Statement.text = ls.map Prod.snd := by
  have hlines : ∀ line ∈ ls.map fun p => p.1 ++ p.2, Even k [] line [] := by
    intro line hline
    obtain ⟨p, hp, rfl⟩ := List.mem_map.1 hline
    exact (Even.of_plain fun c hc => (hblank p hp c hc).2).append ((h p hp).even [])
  have heven := evenPieces_of_lines hlines
  obtain ⟨statements, hok, htexts⟩ := heven.statements_eq hk base
  rw [unlines_eq_pieceText]
  refine ⟨heven.hideComments_eq hk base, statements, hok, ?_⟩
  have htrim : ((ls.map fun p => p.1 ++ p.2).map fun line => (line, '\n')).map
      (fun p => Text.trim p.1) = ls.map Prod.snd := by
    rw [List.map_map, List.map_map]
    refine List.map_congr_left fun p hp => ?_
    exact (h p hp).trim_indented fun c hc => (hblank p hp c hc).1
  rw [htexts, htrim, List.filter_eq_self]
  intro text htext
  obtain ⟨p, hp, rfl⟩ := List.mem_map.1 htext
  rw [(h p hp).isEmpty_eq_false]
  rfl

/-- Lines that are statements are cut into themselves. -/
theorem statements_unlines (hk : k.Tidy) {ls : List (List Char)}
    (h : ∀ line ∈ ls, k.IsStatement line) (base : Nat) :
    k.hideComments base (unlines ls) = .ok (unlines ls) ∧
      ∃ statements, k.statements base (unlines ls) = .ok statements ∧
        statements.map Statement.text = ls := by
  have hblank : ∀ p ∈ ls.map fun line => (([] : List Char), line), ∀ c ∈ p.1,
      isBlank c = true ∧ k.isPlain c = true := by
    intro p hp
    obtain ⟨line, -, rfl⟩ := List.mem_map.1 hp
    exact List.forall_mem_nil _
  have hstatement : ∀ p ∈ ls.map fun line => (([] : List Char), line), k.IsStatement p.2 := by
    intro p hp
    obtain ⟨line, hline, rfl⟩ := List.mem_map.1 hp
    exact h line hline
  have hmain := statements_indented hk hblank hstatement base
  simpa [Function.comp_def] using hmain

end Conventions

end Flowchart
