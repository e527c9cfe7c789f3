import Flowchart.Proofs.Source.Strings
import Flowchart.Proofs.Source.Visible

/-!
# What hiding comments does to a source

Outside strings and comments a source goes on with a line feed, another character, a whole string or a
whole comment (`Item`). **The reader of comments shows every comment as blanks and everything else as
it is**, one item after the other, and it fails exactly at a block comment that is not closed. Whatever
it shows has the bytes of the source at the same offsets: every character stays where it was or gives
way to blanks of its size (`Blanks`), and no line feed comes or goes.
-/

namespace Flowchart

open Text (byteSize isBlank)

namespace Conventions

/-! ## Places that stay -/

/-- The visible text has each character of the text, or blanks of its size in its place. -/
inductive Blanks : (text visible : List Char) → Prop
  | nil : Blanks [] []
  | cons {c : Char} {shown cs visible : List Char} : shown = [c] ∨ shown = hidden c →
      Blanks cs visible → Blanks (c :: cs) (shown ++ visible)

/-- A character is as long as what hides it. -/
theorem byteSize_shown {c : Char} {shown : List Char} (h : shown = [c] ∨ shown = hidden c) :
    byteSize shown = c.utf8Size := by
  rcases h with rfl | rfl
  · rw [Text.byteSize_cons, Text.byteSize_nil, Nat.add_zero]
  · exact byteSize_hidden c

/-- A line feed is shown for a line feed only. -/
theorem eq_feed_of_mem_shown {c : Char} {shown : List Char} (h : shown = [c] ∨ shown = hidden c)
    (hfeed : '\n' ∈ shown) : c = '\n' ∧ shown = ['\n'] := by
  rcases h with rfl | rfl
  · obtain rfl := List.mem_singleton.1 hfeed
    exact ⟨rfl, rfl⟩
  · unfold hidden at hfeed ⊢
    split at hfeed
    · next hc => exact ⟨hc, by rw [if_pos hc, hc]⟩
    · exact absurd (List.eq_of_mem_replicate hfeed) (by decide)

namespace Blanks

variable {text visible front back : List Char}

/-- **Hiding keeps every character at its place.** -/
theorem byteSize_eq (h : Blanks text visible) : byteSize visible = byteSize text := by
  induction h with
  | nil => rfl
  | cons hshown _ ih => rw [Text.byteSize_append, byteSize_shown hshown, Text.byteSize_cons, ih]

/-- What is seen of a text and of the one behind it. -/
theorem exists_append (h : Blanks (front ++ back) visible) :
    ∃ seen later, visible = seen ++ later ∧ Blanks front seen ∧ Blanks back later := by
  induction front generalizing visible with
  | nil => exact ⟨[], visible, rfl, .nil, h⟩
  | cons c cs ih =>
    cases h with
    | @cons _ shown _ _ hshown hrest =>
      obtain ⟨seen, later, rfl, hfront, hback⟩ := ih hrest
      exact ⟨shown ++ seen, later, (List.append_assoc _ _ _).symm, .cons hshown hfront, hback⟩

/-- **Every character stays at its offset, or blanks of its size stand there.** -/
theorem occursAt {c : Char} {place : Nat} (h : Blanks text visible) (hc : OccursAt text [c] place) :
    OccursAt visible [c] place ∨ OccursAt visible (hidden c) place := by
  obtain ⟨before, after, rfl, rfl⟩ := hc
  obtain ⟨seen, later, rfl, hbefore, hrest⟩ := h.exists_append
  cases hrest with
  | cons hshown =>
    refine hshown.imp ?_ ?_
    · rintro rfl
      exact ⟨seen, _, rfl, hbefore.byteSize_eq⟩
    · rintro rfl
      exact ⟨seen, _, rfl, hbefore.byteSize_eq⟩

/-- A line feed that is visible was there before, at the same place. -/
theorem exists_feed {before after : List Char} (h : Blanks text (before ++ '\n' :: after)) :
    ∃ front back, text = front ++ '\n' :: back ∧ byteSize front = byteSize before := by
  generalize hvisible : before ++ '\n' :: after = visible at h
  induction h generalizing before with
  | nil => exact absurd hvisible (by simp)
  | @cons c shown cs visible hshown _ ih =>
    -- the line feed behind what is shown for `c`
    have hbehind : ∀ later, visible = later ++ '\n' :: after → before = shown ++ later →
        ∃ front back, c :: cs = front ++ '\n' :: back ∧ byteSize front = byteSize before := by
      rintro later hlater rfl
      obtain ⟨front, back, rfl, hsize⟩ := ih hlater.symm
      refine ⟨c :: front, back, rfl, ?_⟩
      rw [Text.byteSize_cons, Text.byteSize_append, byteSize_shown hshown, hsize]
    rcases List.append_eq_append_iff.1 hvisible with ⟨left, hleft, hrest⟩ | ⟨later, hbefore, hlater⟩
    · cases left with
      | nil => exact hbehind [] hrest.symm (by rw [hleft, List.append_nil, List.append_nil])
      | cons d left =>
        obtain rfl : '\n' = d := (List.cons_eq_cons.1 hrest).1
        obtain ⟨rfl, hsingle⟩ := eq_feed_of_mem_shown hshown (by rw [hleft]; simp)
        have hnil : before = [] := by
          rw [hsingle] at hleft
          cases before with
          | nil => rfl
          | cons e before => simp at hleft
        exact ⟨[], cs, rfl, by rw [hnil]⟩
    · exact hbehind later hlater hbefore

/-- **Line feeds stay at their offsets, and none is added.** -/
theorem occursAt_feed_iff {place : Nat} (h : Blanks text visible) :
    OccursAt visible ['\n'] place ↔ OccursAt text ['\n'] place := by
  constructor
  · rintro ⟨before, after, rfl, rfl⟩
    obtain ⟨front, back, rfl, hsize⟩ := h.exists_feed
    exact ⟨front, back, rfl, hsize⟩
  · intro hfeed
    have hshown : hidden '\n' = ['\n'] := rfl
    rcases h.occursAt hfeed with hkept | hhid
    · exact hkept
    · rwa [hshown] at hhid

end Blanks

variable {k : Conventions}

/-- **Every character is shown as it is or as blanks of its size.** -/
theorem blanks_hideFrom {pos : Nat} {mode : CommentMode} {text visible : List Char}
    (h : k.hideFrom pos mode text = .ok visible) : Blanks text visible := by
  induction text generalizing pos mode visible with
  | nil =>
    rw [eq_nil_of_hideFrom h]
    exact .nil
  | cons c cs ih =>
    obtain ⟨rest, hrest, rfl⟩ := exists_of_hideFrom_cons h
    refine .cons ?_ (ih hrest)
    cases (k.commentStep pos mode c cs).2
    · exact Or.inl rfl
    · exact Or.inr rfl

/-! ## Strings and comments of a source -/

/-- The line ends here. -/
def EndsLine (rest : List Char) : Prop := ∀ c ∈ rest.head?, c = '\n'

/-- A comment starts here. None starts at a line feed. -/
def startsComment (k : Conventions) (lineStart : Bool) (rest : List Char) : Bool :=
  rest.head? ≠ some '\n' &&
    ((k.startsBlockComment? rest).isSome || k.startsLineComment lineStart rest)

/-- A string with its quotes. One that is not closed ends with the line. -/
inductive IsString (k : Conventions) : (string rest : List Char) → Prop
  | closed {body rest : List Char} : k.staysQuoted false body = true →
      IsString k ('"' :: (body ++ ['"'])) rest
  | torn {body rest : List Char} {escaped : Bool} :
      body.foldlM k.stringStep? false = some escaped → EndsLine rest → IsString k ('"' :: body) rest

/-- No occurrence of the mark starts earlier than the one behind `inner`. -/
def IsFirst (mark inner rest : List Char) : Prop :=
  ∀ front back, inner ++ (mark ++ rest) = front ++ (mark ++ back) → inner.length ≤ front.length

/-- A comment with its marks. A block comment goes up to the first closer behind its opener, a line
comment to the end of the line. -/
inductive IsComment (k : Conventions) (lineStart : Bool) : (comment rest : List Char) → Prop
  | block {opener inner closer rest : List Char} :
      (opener ++ (inner ++ closer)).head? ≠ some '\n' →
      k.startsBlockComment? (opener ++ (inner ++ closer) ++ rest) = some (opener, closer) →
      IsFirst closer inner rest → IsComment k lineStart (opener ++ (inner ++ closer)) rest
  | line {comment rest : List Char} : comment ≠ [] → '\n' ∉ comment →
      k.startsBlockComment? (comment ++ rest) = none →
      k.startsLineComment lineStart (comment ++ rest) = true → EndsLine rest →
      IsComment k lineStart comment rest

/-- What comes next outside strings and comments, and how it is shown. The flags say, in front of it
and behind it, that nothing but blanks and comments stands in front on the line. -/
inductive Item (k : Conventions) (lineStart : Bool) :
    (item shown : List Char) → (lineStart' : Bool) → (rest : List Char) → Prop
  | feed {rest : List Char} : Item k lineStart ['\n'] ['\n'] true rest
  | plain {c : Char} {rest : List Char} : c ≠ '\n' → c ≠ '"' →
      k.startsComment lineStart (c :: rest) = false →
      Item k lineStart [c] [c] (lineStart && isBlank c) rest
  | string {string rest : List Char} : k.startsComment lineStart (string ++ rest) = false →
      IsString k string rest → Item k lineStart string string false rest
  | comment {comment rest : List Char} : IsComment k lineStart comment rest →
      Item k lineStart comment (comment.flatMap hidden) lineStart rest

/-- Behind the text `before` the rest of the source begins outside strings and comments. -/
inductive IsOutside (k : Conventions) (source : List Char) :
    (before : List Char) → (lineStart : Bool) → (rest : List Char) → Prop
  | start : IsOutside k source [] true source
  | next {before item shown rest : List Char} {lineStart lineStart' : Bool} :
      IsOutside k source before lineStart (item ++ rest) →
      Item k lineStart item shown lineStart' rest →
      IsOutside k source (before ++ item) lineStart' rest

/-- A block comment starts here, and behind its opener there is no closer. -/
structure IsUnclosed (k : Conventions) (opener closer after : List Char) : Prop where
  head : ∃ c ∈ (opener ++ after).head?, c ≠ '\n'
  starts : k.startsBlockComment? (opener ++ after) = some (opener, closer)
  unclosed : ¬closer <:+: after

/-! ## Reading on -/

/-- The reader of comments goes from one mode to the other over a part of the text, which it shows as
`shown`. -/
def Goes (k : Conventions) (mode : CommentMode) (part shown : List Char) (next : CommentMode)
    (rest : List Char) : Prop :=
  ∀ pos, k.hideFrom pos mode (part ++ rest) =
    (k.hideFrom (pos + byteSize part) next rest).map (shown ++ ·)

namespace Goes

variable {mode mid next : CommentMode} {part more shown seen rest : List Char} {c : Char}

/-- Nothing is read in any mode. -/
theorem nil (mode : CommentMode) (rest : List Char) : k.Goes mode [] [] mode rest := by
  intro pos
  rw [List.nil_append, Text.byteSize_nil, Nat.add_zero]
  cases k.hideFrom pos mode rest <;> rfl

/-- Two parts that are read one after the other are read as a whole. -/
theorem append (h : k.Goes mode part shown mid (more ++ rest)) (hmore : k.Goes mid more seen next rest) :
    k.Goes mode (part ++ more) (shown ++ seen) next rest := by
  intro pos
  rw [List.append_assoc, h, hmore, Text.byteSize_append, Nat.add_assoc]
  cases k.hideFrom (pos + (byteSize part + byteSize more)) next rest with
  | error => rfl
  | ok visible => exact congrArg Except.ok (List.append_assoc _ _ _).symm

/-- One step reads one character, which a comment hides. -/
theorem step {inComment : Bool} (h : ∀ pos, k.commentStep pos mode c rest = (next, inComment)) :
    k.Goes mode [c] (if inComment then hidden c else [c]) next rest := by
  intro pos
  rw [List.singleton_append, hideFrom, h pos, Text.byteSize_cons, Text.byteSize_nil, Nat.add_zero]
  dsimp only
  cases k.hideFrom (pos + c.utf8Size) next rest <;> rfl

/-- The next character is shown. -/
theorem keep_cons (hc : ∀ pos, k.commentStep pos mode c (part ++ rest) = (mid, false))
    (h : k.Goes mid part shown next rest) : k.Goes mode (c :: part) (c :: shown) next rest :=
  append (step hc) h

/-- The next character is hidden, and so is what follows. -/
theorem hide_cons (hc : ∀ pos, k.commentStep pos mode c (part ++ rest) = (mid, true))
    (h : k.Goes mid part (part.flatMap hidden) next rest) :
    k.Goes mode (c :: part) ((c :: part).flatMap hidden) next rest :=
  append (step hc) h

/-- A part leads to any mode that reads what follows in the same way. -/
theorem of_eq (h : k.Goes mode part shown mid rest)
    (heq : ∀ pos, k.hideFrom pos mid rest = k.hideFrom pos next rest) :
    k.Goes mode part shown next rest := by
  intro pos
  rw [h, heq]

end Goes

variable {lineStart : Bool} {opener closer inner rest : List Char} {pos openedAt : Nat}

/-! ## Block comments -/

/-- In a block comment only the block decides what a step does. -/
theorem commentStep_block {marks : Nat} (hblock : k.blockComment? = some (opener, closer))
    (pos : Nat) (c : Char) (cs : List Char) :
    k.commentStep pos (.block marks lineStart openedAt) c cs =
      blockStep closer marks lineStart openedAt c cs := by
  rw [commentStep, hblock]

/-- A block comment is read from its opener on. -/
theorem hideFrom_of_startsBlockComment? {text : List Char} (hhead : ∃ c ∈ text.head?, c ≠ '\n')
    (h : k.startsBlockComment? text = some (opener, closer)) (pos : Nat) :
    k.hideFrom pos (.code 0 lineStart) text =
      k.hideFrom pos (.block opener.length lineStart pos) text := by
  obtain ⟨hblock, -⟩ := startsBlockComment?_eq_some h
  cases text with
  | nil => simp at hhead
  | cons c cs =>
    have hc : c ≠ '\n' := by simpa using hhead
    have hstep : k.commentStep pos (.code 0 lineStart) c cs =
        blockStep closer opener.length lineStart pos c cs := by
      simp only [commentStep, hc, h, if_false]
    rw [hideFrom, hstep, hideFrom, commentStep_block hblock]

/-- The mode behind the opener: an empty closer ends the comment there. -/
def behindOpener (closer : List Char) (lineStart : Bool) (openedAt : Nat) : CommentMode :=
  if closer.isEmpty then .code 0 lineStart else .block 0 lineStart openedAt

/-- The marks of the opener are hidden one by one. -/
theorem goes_opener (hblock : k.blockComment? = some (opener, closer)) {left : List Char}
    (hne : left ++ closer ≠ []) (rest : List Char) :
    k.Goes (.block left.length lineStart openedAt) left (left.flatMap hidden)
      (behindOpener closer lineStart openedAt) rest := by
  induction left with
  | nil =>
    have hmode : behindOpener closer lineStart openedAt = .block 0 lineStart openedAt := by
      rw [behindOpener, if_neg (by simpa using hne)]
    rw [hmode]
    exact .nil _ _
  | cons c cs ih =>
    cases cs with
    | nil =>
      refine Goes.hide_cons (fun pos => ?_) (.nil _ _)
      rw [commentStep_block hblock]
      cases closer <;> rfl
    | cons d ds =>
      refine Goes.hide_cons (fun pos => ?_) (ih (by simp))
      rw [commentStep_block hblock]
      rfl

/-- Up to the first closer everything is hidden. -/
theorem goes_inner (hblock : k.blockComment? = some (opener, closer))
    (hfirst : IsFirst closer inner rest) :
    k.Goes (.block 0 lineStart openedAt) inner (inner.flatMap hidden)
      (.block 0 lineStart openedAt) (closer ++ rest) := by
  induction inner with
  | nil => exact .nil _ _
  | cons c cs ih =>
    have hno : closer.isPrefixOf (c :: (cs ++ (closer ++ rest))) = false := by
      by_contra hstarts
      obtain ⟨back, hback⟩ := List.isPrefixOf_iff_prefix.1 (eq_true_of_ne_false hstarts)
      exact absurd (hfirst [] back hback.symm) (by simp)
    refine Goes.hide_cons (fun pos => ?_) (ih fun front back heq => ?_)
    · rw [commentStep_block hblock, blockStep, if_neg (by rw [hno]; decide)]
    · have hlonger := hfirst (c :: front) back (by rw [List.cons_append, heq, List.cons_append])
      simpa using hlonger

/-- The marks that are left are hidden. -/
theorem goes_marks (left rest : List Char) :
    k.Goes (.code left.length lineStart) left (left.flatMap hidden) (.code 0 lineStart) rest := by
  induction left with
  | nil => exact .nil _ _
  | cons c cs ih => exact Goes.hide_cons (fun pos => by rw [List.length_cons, commentStep]) ih

/-- The marks of the closer are hidden, and code goes on behind the last one. -/
theorem goes_closer (hblock : k.blockComment? = some (opener, closer)) (hne : closer ≠ [])
    (rest : List Char) :
    k.Goes (.block 0 lineStart openedAt) closer (closer.flatMap hidden) (.code 0 lineStart) rest := by
  obtain ⟨c, cs, rfl⟩ := List.exists_cons_of_ne_nil hne
  have hstarts : (c :: cs).isPrefixOf (c :: (cs ++ rest)) = true :=
    List.isPrefixOf_iff_prefix.2 ⟨rest, rfl⟩
  refine Goes.hide_cons (fun pos => ?_) (goes_marks cs rest)
  rw [commentStep_block hblock, blockStep, if_pos hstarts]
  rfl

/-- Without a closer the comment is not left. -/
theorem hideFrom_of_unclosed (hblock : k.blockComment? = some (opener, closer)) {text : List Char}
    (h : ¬closer <:+: text) (pos : Nat) :
    k.hideFrom pos (.block 0 lineStart openedAt) text = .error openedAt := by
  induction text generalizing pos with
  | nil => rfl
  | cons c cs ih =>
    have hno : closer.isPrefixOf (c :: cs) = false := by
      by_contra hstarts
      obtain ⟨back, hback⟩ := List.isPrefixOf_iff_prefix.1 (eq_true_of_ne_false hstarts)
      exact h ⟨[], back, by rw [← hback, List.nil_append]⟩
    have hrest : ¬closer <:+: cs := fun hoccurs => h (hoccurs.trans (List.suffix_cons c cs).isInfix)
    have hstep : k.commentStep pos (.block 0 lineStart openedAt) c cs =
        (.block 0 lineStart openedAt, true) := by
      rw [commentStep_block hblock, blockStep, if_neg (by rw [hno]; decide)]
    rw [hideFrom, hstep]
    simp only [ih hrest]

/-- Opener and closer of a block comment are not both empty. -/
theorem marks_ne_nil {text : List Char} (h : k.startsBlockComment? text = some (opener, closer)) :
    opener ++ closer ≠ [] := by
  obtain ⟨-, hmarks⟩ := Option.filter_eq_some_iff.1 h
  rw [Bool.and_eq_true] at hmarks
  simpa using hmarks.2

/-- So no block comment is empty. -/
theorem comment_ne_nil {text : List Char} (h : k.startsBlockComment? text = some (opener, closer))
    (inner : List Char) : opener ++ (inner ++ closer) ≠ [] := by
  intro hnil
  obtain ⟨hopener, hbehind⟩ := List.append_eq_nil_iff.1 hnil
  exact marks_ne_nil h (List.append_eq_nil_iff.2 ⟨hopener, (List.append_eq_nil_iff.1 hbehind).2⟩)

/-- **A block comment is hidden from its opener to its closer.** -/
theorem goes_block (hblock : k.blockComment? = some (opener, closer)) (hne : opener ++ closer ≠ [])
    (hfirst : IsFirst closer inner rest) :
    k.Goes (.block opener.length lineStart openedAt) (opener ++ (inner ++ closer))
      ((opener ++ (inner ++ closer)).flatMap hidden) (.code 0 lineStart) rest := by
  have hopener : k.Goes (.block opener.length lineStart openedAt) opener (opener.flatMap hidden)
      (behindOpener closer lineStart openedAt) (inner ++ closer ++ rest) := goes_opener hblock hne _
  by_cases hcloser : closer = []
  -- an empty closer stands right behind the opener
  · subst hcloser
    have hinner : inner = [] := by
      have hle := hfirst [] (inner ++ rest) rfl
      rwa [List.length_nil, Nat.le_zero, List.length_eq_zero_iff] at hle
    rw [hinner] at hopener ⊢
    rw [List.append_nil, List.append_nil]
    exact hopener
  · have hmode : behindOpener closer lineStart openedAt = .block 0 lineStart openedAt := by
      rw [behindOpener, if_neg (by simpa using hcloser)]
    rw [hmode] at hopener
    rw [List.flatMap_append, List.flatMap_append]
    exact hopener.append ((goes_inner hblock hfirst).append (goes_closer hblock hcloser rest))

/-- A block comment is hidden. -/
theorem goes_blockComment (hhead : (opener ++ (inner ++ closer)).head? ≠ some '\n')
    (hstarts : k.startsBlockComment? (opener ++ (inner ++ closer) ++ rest) = some (opener, closer))
    (hfirst : IsFirst closer inner rest) :
    k.Goes (.code 0 lineStart) (opener ++ (inner ++ closer))
      ((opener ++ (inner ++ closer)).flatMap hidden) (.code 0 lineStart) rest := by
  obtain ⟨hblock, -⟩ := startsBlockComment?_eq_some hstarts
  have hfirstChar : ∃ c ∈ (opener ++ (inner ++ closer) ++ rest).head?, c ≠ '\n' := by
    obtain ⟨c, cs, heq⟩ := List.exists_cons_of_ne_nil (comment_ne_nil hstarts inner)
    rw [heq] at hhead ⊢
    exact ⟨c, rfl, fun hc => hhead (congrArg some hc)⟩
  intro pos
  rw [hideFrom_of_startsBlockComment? hfirstChar hstarts pos]
  exact goes_block hblock (marks_ne_nil hstarts) hfirst pos

/-! ## Strings and line comments -/

/-- Where no comment starts, the reader of comments shows the next character. -/
theorem commentStep_of_not_startsComment {c : Char} {cs : List Char} (hc : c ≠ '\n')
    (h : k.startsComment lineStart (c :: cs) = false) (pos : Nat) :
    k.commentStep pos (.code 0 lineStart) c cs =
      (if c = '"' then .quoted false else .code 0 (lineStart && isBlank c), false) := by
  have hno : k.startsBlockComment? (c :: cs) = none ∧ k.startsLineComment lineStart (c :: cs) = false := by
    simpa [startsComment, hc] using h
  rw [commentStep, if_neg hc, hno.1]
  simp only [hno.2, Bool.false_eq_true, if_false]
  split <;> rfl

/-- At the end of a line it does not matter what the line ended in. -/
theorem hideFrom_line_of_endsLine (h : EndsLine rest) (pos : Nat) :
    k.hideFrom pos .line rest = k.hideFrom pos (.code 0 lineStart) rest := by
  cases rest with
  | nil => simp [hideFrom]
  | cons c cs =>
    obtain rfl : c = '\n' := h c rfl
    simp [hideFrom, commentStep]

/-- A string that its line ends is given up: code goes on behind it. -/
theorem hideFrom_quoted_of_endsLine (h : EndsLine rest) (escaped : Bool) (pos : Nat) :
    k.hideFrom pos (.quoted escaped) rest = k.hideFrom pos (.code 0 lineStart) rest := by
  cases rest with
  | nil => simp [hideFrom]
  | cons c cs =>
    obtain rfl : c = '\n' := h c rfl
    simp [hideFrom, commentStep]

/-- A line comment is hidden up to the end of its line. -/
theorem goes_line {comment : List Char} (h : '\n' ∉ comment) (rest : List Char) :
    k.Goes .line comment (comment.flatMap hidden) .line rest := by
  induction comment with
  | nil => exact .nil _ _
  | cons c cs ih =>
    rw [List.mem_cons, not_or] at h
    refine Goes.hide_cons (fun pos => ?_) (ih h.2)
    rw [commentStep, if_neg (Ne.symm h.1)]

/-- A string stays visible as far as it goes. -/
theorem goes_quoted {escaped next : Bool} {body : List Char}
    (h : body.foldlM k.stringStep? escaped = some next) (rest : List Char) :
    k.Goes (.quoted escaped) body body (.quoted next) rest := by
  induction body generalizing escaped with
  | nil =>
    obtain rfl : escaped = next := Option.some.inj h
    exact .nil _ _
  | cons c cs ih =>
    obtain ⟨mid, hmid, hrest⟩ := foldlM_cons_eq_some_iff.1 h
    exact Goes.keep_cons (fun pos => commentStep_of_stringStep? hmid pos _) (ih hrest)

/-- A string is shown. -/
theorem IsString.goes {string : List Char} (h : IsString k string rest)
    (hno : k.startsComment lineStart (string ++ rest) = false) :
    k.Goes (.code 0 lineStart) string string (.code 0 false) rest := by
  have hquote : ('"' : Char) ≠ '\n' := by decide
  cases h with
  | @closed body _ hbody =>
    refine Goes.keep_cons (fun pos => commentStep_of_not_startsComment hquote hno pos) ?_
    refine (goes_quoted (staysQuoted_iff.1 hbody) _).append (Goes.keep_cons (fun pos => ?_) (.nil _ _))
    exact commentStep_quote pos rest
  | @torn body _ escaped hbody hline =>
    refine Goes.keep_cons (fun pos => commentStep_of_not_startsComment hquote hno pos) ?_
    exact (goes_quoted hbody rest).of_eq (hideFrom_quoted_of_endsLine hline escaped)

/-- A comment is hidden. -/
theorem IsComment.goes {comment : List Char} (h : IsComment k lineStart comment rest) :
    k.Goes (.code 0 lineStart) comment (comment.flatMap hidden) (.code 0 lineStart) rest := by
  cases h with
  | block hhead hstarts hfirst => exact goes_blockComment hhead hstarts hfirst
  | line hne hfeed hblock hstarts hline =>
    obtain ⟨c, cs, rfl⟩ := List.exists_cons_of_ne_nil hne
    rw [List.mem_cons, not_or] at hfeed
    refine Goes.of_eq (Goes.hide_cons (fun pos => ?_) (goes_line hfeed.2 rest))
      (hideFrom_line_of_endsLine hline)
    rw [List.cons_append] at hblock hstarts
    simp only [commentStep, Ne.symm hfeed.1, hblock, hstarts, if_true, if_false]

/-! ## One item after the other -/

/-- A hidden comment is as long as the comment. -/
theorem byteSize_flatMap_hidden (comment : List Char) :
    byteSize (comment.flatMap hidden) = byteSize comment := by
  induction comment with
  | nil => rfl
  | cons c cs ih =>
    rw [List.flatMap_cons, Text.byteSize_append, byteSize_hidden, ih, Text.byteSize_cons]

variable {source before item shown : List Char} {lineStart' : Bool}

/-- Every item stays as long as it was. -/
theorem Item.byteSize_eq (h : Item k lineStart item shown lineStart' rest) :
    byteSize shown = byteSize item := by
  cases h with
  | feed => rfl
  | plain => rfl
  | string => rfl
  | comment => exact byteSize_flatMap_hidden _

/-- **The reader of comments goes over one item.** -/
theorem Item.goes (h : Item k lineStart item shown lineStart' rest) :
    k.Goes (.code 0 lineStart) item shown (.code 0 lineStart') rest := by
  cases h with
  | feed =>
    refine Goes.keep_cons (fun pos => ?_) (.nil _ _)
    simp [commentStep]
  | @plain c _ hfeed hquote hno =>
    refine Goes.keep_cons (fun pos => ?_) (.nil _ _)
    rw [List.nil_append, commentStep_of_not_startsComment hfeed hno, if_neg hquote]
  | string hno hstring => exact hstring.goes hno
  | comment hcomment => exact hcomment.goes

/-- **The reader of comments comes to every place outside strings and comments.** -/
theorem IsOutside.goes (h : IsOutside k source before lineStart rest) :
    source = before ++ rest ∧ ∃ seen, byteSize seen = byteSize before ∧
      k.Goes (.code 0 true) before seen (.code 0 lineStart) rest := by
  induction h with
  | start => exact ⟨rfl, [], rfl, .nil _ _⟩
  | @next before item shown rest lineStart lineStart' _ hitem ih =>
    obtain ⟨hsource, seen, hsize, hgoes⟩ := ih
    refine ⟨by rw [hsource, List.append_assoc], seen ++ shown, ?_, hgoes.append hitem.goes⟩
    rw [Text.byteSize_append, Text.byteSize_append, hsize, hitem.byteSize_eq]

/-! ## Going on -/

/-- A mark that occurs in a text has a first occurrence. -/
theorem exists_isFirst {mark text : List Char} (h : mark <:+: text) :
    ∃ inner rest, text = inner ++ (mark ++ rest) ∧ IsFirst mark inner rest := by
  induction text with
  | nil =>
    obtain rfl := List.infix_nil.1 h
    exact ⟨[], [], rfl, fun front back _ => Nat.zero_le _⟩
  | cons c cs ih =>
    by_cases hprefix : mark <+: c :: cs
    · obtain ⟨rest, hrest⟩ := hprefix
      exact ⟨[], rest, hrest.symm, fun front back _ => Nat.zero_le _⟩
    · obtain ⟨inner, rest, rfl, hfirst⟩ := ih ((List.infix_cons_iff.1 h).resolve_left hprefix)
      refine ⟨c :: inner, rest, rfl, fun front back heq => ?_⟩
      cases front with
      | nil => exact absurd ⟨back, heq.symm⟩ hprefix
      | cons d front =>
        have hrest := (List.cons_eq_cons.1 heq).2
        exact Nat.succ_le_succ (hfirst front back hrest)

/-- The content of a string ends at its closing quote or with the line. -/
theorem exists_content (escaped : Bool) (text : List Char) :
    (∃ body rest, text = body ++ '"' :: rest ∧ body.foldlM k.stringStep? escaped = some false) ∨
      ∃ body rest next, text = body ++ rest ∧ body.foldlM k.stringStep? escaped = some next ∧
        EndsLine rest := by
  induction text generalizing escaped with
  | nil => exact Or.inr ⟨[], [], escaped, rfl, rfl, by simp [EndsLine]⟩
  | cons c cs ih =>
    cases hstep : k.stringStep? escaped c with
    | none =>
      rcases stringStep?_eq_none_iff.1 hstep with rfl | ⟨rfl, rfl⟩
      · exact Or.inr ⟨[], '\n' :: cs, escaped, rfl, rfl, by simp [EndsLine]⟩
      · exact Or.inl ⟨[], cs, rfl, rfl⟩
    | some flag =>
      rcases ih flag with ⟨body, rest, rfl, hbody⟩ | ⟨body, rest, next, rfl, hbody, hline⟩
      · exact Or.inl ⟨c :: body, rest, rfl, (foldlM_cons_of_some hstep body).trans hbody⟩
      · exact Or.inr
          ⟨c :: body, rest, next, rfl, (foldlM_cons_of_some hstep body).trans hbody, hline⟩

/-- Behind an opening quote a string is closed or torn. -/
theorem exists_isString (k : Conventions) (text : List Char) :
    ∃ string rest, '"' :: text = string ++ rest ∧ string ≠ [] ∧ IsString k string rest := by
  rcases exists_content (k := k) false text with
    ⟨body, rest, rfl, hbody⟩ | ⟨body, rest, next, rfl, hbody, hline⟩
  · exact ⟨'"' :: (body ++ ['"']), rest, by simp, by simp, .closed (staysQuoted_iff.2 hbody)⟩
  · exact ⟨'"' :: body, rest, rfl, by simp, .torn hbody hline⟩

/-- A block comment is closed or not. -/
theorem exists_blockComment (lineStart : Bool) {text : List Char} (hne : text ≠ [])
    (hhead : text.head? ≠ some '\n') (h : k.startsBlockComment? text = some (opener, closer)) :
    (∃ comment rest, text = comment ++ rest ∧ comment ≠ [] ∧ IsComment k lineStart comment rest) ∨
      ∃ after, text = opener ++ after ∧ IsUnclosed k opener closer after := by
  obtain ⟨-, hstarts⟩ := startsBlockComment?_eq_some h
  obtain ⟨after, rfl⟩ := List.isPrefixOf_iff_prefix.1 hstarts
  by_cases hcloser : closer <:+: after
  · obtain ⟨inner, rest, rfl, hfirst⟩ := exists_isFirst hcloser
    have hcomment : opener ++ (inner ++ (closer ++ rest)) = opener ++ (inner ++ closer) ++ rest := by
      simp only [List.append_assoc]
    rw [hcomment] at h hhead ⊢
    refine Or.inl ⟨_, rest, rfl, comment_ne_nil h inner, .block (fun hfeed => hhead ?_) h hfirst⟩
    rw [List.head?_append, hfeed, Option.some_or]
  · obtain ⟨c, cs, heq⟩ := List.exists_cons_of_ne_nil hne
    refine Or.inr ⟨after, rfl, ⟨c, ?_, fun hfeed => hhead ?_⟩, h, hcloser⟩
    · rw [heq]
      rfl
    · rw [heq, hfeed]
      rfl

/-- A line comment goes up to the end of the line. -/
theorem exists_lineComment {c : Char} {cs : List Char} (hc : c ≠ '\n')
    (hblock : k.startsBlockComment? (c :: cs) = none)
    (hline : k.startsLineComment lineStart (c :: cs) = true) :
    ∃ comment rest, c :: cs = comment ++ rest ∧ comment ≠ [] ∧ IsComment k lineStart comment rest := by
  have hsplit : c :: cs.takeWhile (· ≠ '\n') ++ cs.dropWhile (· ≠ '\n') = c :: cs := by
    rw [List.cons_append, List.takeWhile_append_dropWhile]
  refine ⟨_, _, hsplit.symm, by simp, .line (by simp) ?_ ?_ ?_ ?_⟩
  · rw [List.mem_cons, not_or]
    exact ⟨Ne.symm hc, fun hmem => absurd (List.mem_takeWhile_imp hmem) (by simp)⟩
  · rw [hsplit, hblock]
  · rw [hsplit, hline]
  · intro d hd
    have hstop := List.head?_dropWhile_not (· ≠ '\n') cs
    rw [Option.mem_def.1 hd] at hstop
    simpa using hstop

/-- **A source that is not at its end goes on with an item, or with a block comment that is not
closed.** -/
theorem exists_item (lineStart : Bool) {text : List Char} (hne : text ≠ []) :
    (∃ item shown lineStart' rest, text = item ++ rest ∧ item ≠ [] ∧
        Item k lineStart item shown lineStart' rest) ∨
      ∃ opener closer after, text = opener ++ after ∧ IsUnclosed k opener closer after := by
  obtain ⟨c, cs, rfl⟩ := List.exists_cons_of_ne_nil hne
  by_cases hfeed : c = '\n'
  · exact Or.inl ⟨['\n'], ['\n'], true, cs, by rw [hfeed]; rfl, by simp, .feed⟩
  cases hblock : k.startsBlockComment? (c :: cs) with
  | some marks =>
    refine (exists_blockComment lineStart hne (by simpa using hfeed) hblock).imp ?_ ?_
    · rintro ⟨comment, rest, heq, hcomment, his⟩
      exact ⟨comment, _, lineStart, rest, heq, hcomment, .comment his⟩
    · rintro ⟨after, heq, hunclosed⟩
      exact ⟨marks.1, marks.2, after, heq, hunclosed⟩
  | none =>
    left
    cases hline : k.startsLineComment lineStart (c :: cs) with
    | true =>
      obtain ⟨comment, rest, heq, hcomment, his⟩ := exists_lineComment hfeed hblock hline
      exact ⟨comment, _, lineStart, rest, heq, hcomment, .comment his⟩
    | false =>
      have hno : k.startsComment lineStart (c :: cs) = false := by
        simp [startsComment, hblock, hline]
      by_cases hquote : c = '"'
      · subst hquote
        obtain ⟨string, rest, heq, hstring, his⟩ := exists_isString k cs
        rw [heq] at hno
        exact ⟨string, string, false, rest, heq, hstring, .string hno his⟩
      · exact ⟨[c], [c], _, cs, rfl, by simp, .plain hfeed hquote hno⟩

/-- Where a block comment is not closed, the reader of comments stops. -/
theorem IsUnclosed.hideFrom_eq {after : List Char} (h : IsUnclosed k opener closer after) (pos : Nat) :
    k.hideFrom pos (.code 0 lineStart) (opener ++ after) = .error pos := by
  obtain ⟨hblock, -⟩ := startsBlockComment?_eq_some h.starts
  have hcloser : closer ≠ [] := by
    rintro rfl
    exact h.unclosed (List.nil_infix)
  have hmode : behindOpener closer lineStart pos = .block 0 lineStart pos := by
    rw [behindOpener, if_neg (by simpa using hcloser)]
  rw [hideFrom_of_startsBlockComment? h.head h.starts,
    goes_opener hblock (marks_ne_nil h.starts), hmode, hideFrom_of_unclosed hblock h.unclosed]
  rfl

/-- **The reader of comments stops only there.** -/
theorem exists_isUnclosed {base place : Nat} (h : IsOutside k source before lineStart rest)
    (herror : k.hideFrom (base + byteSize before) (.code 0 lineStart) rest = .error place) :
    ∃ before lineStart opener closer after, IsOutside k source before lineStart (opener ++ after) ∧
      IsUnclosed k opener closer after ∧ place = base + byteSize before := by
  induction hlength : rest.length using Nat.strong_induction_on generalizing before lineStart rest with
  | _ length ih =>
    by_cases hne : rest = []
    · subst hne
      exact absurd herror (by simp [hideFrom])
    rcases exists_item (k := k) lineStart hne with
      ⟨item, shown, lineStart', later, rfl, hitem, his⟩ | ⟨opener, closer, after, rfl, hunclosed⟩
    · rw [his.goes, Nat.add_assoc, ← Text.byteSize_append] at herror
      have hlater : k.hideFrom (base + byteSize (before ++ item)) (.code 0 lineStart') later =
          .error place := by
        cases hlater : k.hideFrom (base + byteSize (before ++ item)) (.code 0 lineStart') later with
        | ok visible =>
          rw [hlater] at herror
          exact absurd herror (by simp [Except.map])
        | error other =>
          rw [hlater] at herror
          exact herror
      refine ih later.length ?_ (h.next his) hlater rfl
      rw [← hlength, List.length_append]
      have := List.length_pos_iff.2 hitem
      omega
    · rw [hunclosed.hideFrom_eq] at herror
      exact ⟨before, lineStart, opener, closer, after, h, hunclosed, (Except.error.inj herror).symm⟩

/-! ## Hiding the comments of a source -/

/-- Hiding succeeds exactly if going through the source does. -/
theorem hideComments_eq_ok_iff {base : Nat} {visible : List Char} :
    k.hideComments base source = .ok visible ↔
      k.hideFrom base (.code 0 true) source = .ok visible := by
  rw [hideComments]
  cases k.hideFrom base (.code 0 true) source <;> simp

/-- **Every item is shown where it stands.** -/
theorem Item.occursAt {base : Nat} {visible : List Char} (h : Item k lineStart item shown lineStart' rest)
    (hplace : IsOutside k source before lineStart (item ++ rest))
    (hvisible : k.hideComments base source = .ok visible) : OccursAt visible shown (byteSize before) := by
  obtain ⟨hsource, seen, hsize, hgoes⟩ := hplace.goes
  rw [hideComments_eq_ok_iff, hsource, hgoes, h.goes] at hvisible
  cases hlater : k.hideFrom (base + byteSize before + byteSize item) (.code 0 lineStart') rest with
  | error place =>
    rw [hlater] at hvisible
    exact absurd hvisible (by simp [Except.map])
  | ok later =>
    rw [hlater] at hvisible
    exact ⟨seen, later, (Except.ok.inj hvisible).symm, hsize⟩

/-- **Comments cannot be hidden exactly where a block comment is not closed.** -/
theorem hideComments_eq_error_iff {base : Nat} {problem : Diagnostic} :
    k.hideComments base source = .error problem ↔
      ∃ before lineStart opener closer after,
        IsOutside k source before lineStart (opener ++ after) ∧ IsUnclosed k opener closer after ∧
        problem = unterminatedComment (base + byteSize before) opener closer := by
  constructor
  · intro h
    rw [hideComments] at h
    split at h
    · exact absurd h (by simp)
    · next place hplace =>
      have hstart : IsOutside k source [] true source := .start
      obtain ⟨before, lineStart, opener, closer, after, houtside, hunclosed, rfl⟩ :=
        exists_isUnclosed hstart hplace
      rw [(startsBlockComment?_eq_some hunclosed.starts).1] at h
      exact ⟨before, lineStart, opener, closer, after, houtside, hunclosed, (Except.error.inj h).symm⟩
  · rintro ⟨before, lineStart, opener, closer, after, houtside, hunclosed, rfl⟩
    obtain ⟨hsource, seen, -, hgoes⟩ := houtside.goes
    rw [hideComments, hsource, hgoes, hunclosed.hideFrom_eq,
      (startsBlockComment?_eq_some hunclosed.starts).1]
    rfl

/-- **Hiding comments keeps every place and every string, and it fails exactly where a block comment is
not closed.** -/
theorem hideComments_isExact (k : Conventions) (base : Nat) (source : List Char) :
    (∀ visible, k.hideComments base source = .ok visible →
      byteSize visible = byteSize source ∧
      (∀ place, OccursAt visible ['\n'] place ↔ OccursAt source ['\n'] place) ∧
      (∀ c place, c ≠ '\n' → OccursAt source [c] place →
        OccursAt visible [c] place ∨ OccursAt visible (List.replicate c.utf8Size ' ') place) ∧
      ∀ before lineStart,
        (∀ string rest, IsOutside k source before lineStart (string ++ rest) →
          k.startsComment lineStart (string ++ rest) = false → IsString k string rest →
          OccursAt visible string (byteSize before)) ∧
        ∀ comment rest, IsOutside k source before lineStart (comment ++ rest) →
          IsComment k lineStart comment rest →
          OccursAt visible (comment.flatMap hidden) (byteSize before)) ∧
      ∀ problem, k.hideComments base source = .error problem ↔
        ∃ before lineStart opener closer after,
          IsOutside k source before lineStart (opener ++ after) ∧ IsUnclosed k opener closer after ∧
          problem = unterminatedComment (base + byteSize before) opener closer ∧
          problem.code = some .unterminatedComment := by
  refine ⟨fun visible hvisible => ?_, fun problem => ?_⟩
  · have hblanks := blanks_hideFrom (hideComments_eq_ok_iff.1 hvisible)
    refine ⟨hblanks.byteSize_eq, fun place => hblanks.occursAt_feed_iff, ?_, fun before lineStart => ⟨?_, ?_⟩⟩
    · intro c place hc hoccurs
      have hshown : hidden c = List.replicate c.utf8Size ' ' := if_neg hc
      rw [← hshown]
      exact hblanks.occursAt hoccurs
    · intro string rest houtside hno hstring
      exact (Item.string hno hstring).occursAt houtside hvisible
    · intro comment rest houtside hcomment
      exact (Item.comment hcomment).occursAt houtside hvisible
  · rw [hideComments_eq_error_iff]
    constructor
    · rintro ⟨before, lineStart, opener, closer, after, houtside, hunclosed, rfl⟩
      exact ⟨before, lineStart, opener, closer, after, houtside, hunclosed, rfl, rfl⟩
    · rintro ⟨before, lineStart, opener, closer, after, houtside, hunclosed, hproblem, -⟩
      exact ⟨before, lineStart, opener, closer, after, houtside, hunclosed, hproblem⟩

end Conventions

end Flowchart
