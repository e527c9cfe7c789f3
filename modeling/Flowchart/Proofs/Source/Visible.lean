import Flowchart.Proofs.Source.Cutting
import Flowchart.Proofs.Source.Places

/-!
# Where the visible text stands in the source

Statements are cut out of a copy of the source in which comments are hidden. The copy has the bytes
of the source at the same offsets, but where a comment holds a character of several bytes it has
several spaces. So not every offset between two characters of the copy is a boundary of the source;
an offset between two spaces may not be one.

A text is parted *clearly* if no space follows a blank there. **Where the visible text is parted
clearly, the source has a boundary**, and it has another one behind the next visible character,
because a comment starts with a mark of one byte. Both are kept by cutting statements out of the
text (`Statement.StandsIn`), and the complaints about comments, strings and brackets are placed.
-/

namespace Flowchart

open Text (byteSize isBlank)

/-! ## Clear partings -/

/-- No space follows a blank between the two texts. -/
def IsClear (taken rest : List Char) : Prop :=
  rest.head? = some ' ' → ∀ c ∈ taken.getLast?, isBlank c = false

namespace IsClear

variable {a b taken rest : List Char}

theorem of_head (h : rest.head? ≠ some ' ') : IsClear taken rest := fun hhead => absurd hhead h

/-- A text that does not begin with a blank is clear of what stands in front. -/
theorem of_head_not_blank (h : ∀ c ∈ rest.head?, isBlank c = false) : IsClear taken rest := by
  refine of_head fun hhead => ?_
  exact absurd (h ' ' hhead) (by decide)

theorem of_last (h : ∀ c ∈ taken.getLast?, isBlank c = false) : IsClear taken rest := fun _ => h

theorem nil_left (rest : List Char) : IsClear [] rest := of_last (by simp)

theorem nil_right (taken : List Char) : IsClear taken [] := of_head (by simp)

/-- What stands in front of both texts does not matter. -/
theorem of_append_left (h : IsClear (a ++ taken) rest) : IsClear taken rest := by
  intro hhead c hc
  refine h hhead c ?_
  rw [Option.mem_def] at hc ⊢
  rw [List.getLast?_append, hc, Option.some_or]

/-- A clear parting of a text is one of a longer text, if the text is parted clearly from what
surrounds it. -/
theorem append (h : IsClear taken rest) (hfirst : IsClear a (taken ++ rest ++ b))
    (hlast : IsClear (a ++ (taken ++ rest)) b) : IsClear (a ++ taken) (rest ++ b) := by
  intro hhead
  by_cases hrest : rest = []
  · rw [hrest, List.nil_append] at hhead
    rw [hrest, List.append_nil] at hlast
    exact hlast hhead
  · by_cases htaken : taken = []
    · rw [htaken, List.append_nil]
      rw [htaken, List.nil_append] at hfirst
      exact hfirst hhead
    · rw [List.head?_append_of_ne_nil _ hrest] at hhead
      rw [List.getLast?_append_of_ne_nil _ htaken]
      exact h hhead

end IsClear

/-! ## Hidden comments -/

namespace Conventions

/-- The visible text is the text with some of its characters hidden. The flag says that the text
begins inside a comment. Outside, **only characters of one byte start to be hidden**. -/
inductive Hides : Bool → List Char → List Char → Prop
  | nil (inside : Bool) : Hides inside [] []
  | kept {inside : Bool} {c : Char} {cs visible : List Char} :
      Hides false cs visible → Hides inside (c :: cs) (c :: visible)
  | hid {inside next : Bool} {c : Char} {cs visible : List Char} :
      (inside = false → c.utf8Size = 1) → Hides next cs visible →
      Hides inside (c :: cs) (hidden c ++ visible)

/-- A character is hidden by as many bytes as it has. -/
theorem byteSize_hidden (c : Char) : byteSize (hidden c) = c.utf8Size := by
  unfold hidden
  split
  · rw [Text.byteSize_cons, Text.byteSize_nil, Nat.add_zero]
  · have hspaces : ∀ n : Nat, byteSize (List.replicate n ' ') = n := by
      intro n
      induction n with
      | zero => rfl
      | succ n ih =>
        rw [List.replicate_succ, Text.byteSize_cons, ih, Nat.add_comm]
        rfl
    exact hspaces _

/-- Hidden characters are blanks. -/
theorem isBlank_of_mem_hidden {c d : Char} (h : d ∈ hidden c) : isBlank d = true := by
  unfold hidden at h
  split at h
  · next hc =>
    rw [List.mem_singleton.1 h, hc]
    decide
  · rw [List.eq_of_mem_replicate h]
    decide

/-- The blanks of one hidden character are not parted clearly. -/
theorem hidden_not_parted {c : Char} {x y visible : List Char} (h : hidden c = x ++ y)
    (hclear : IsClear x (y ++ visible)) (hy : y ≠ []) : x = [] := by
  by_contra hx
  have hspace : y.head? = some ' ' := by
    have hmem : y.head hy ∈ (hidden c).tail := by
      rw [h, List.tail_append_of_ne_nil hx]
      exact List.mem_append_right _ (List.head_mem hy)
    unfold hidden at hmem
    split at hmem
    · exact absurd hmem List.not_mem_nil
    · rw [List.tail_replicate] at hmem
      rw [List.head?_eq_some_head hy, List.eq_of_mem_replicate hmem]
  have hlast : x.getLast hx ∈ hidden c := by
    rw [h]
    exact List.mem_append_left _ (List.getLast_mem hx)
  have hblank := hclear (by rw [List.head?_append, hspace, Option.some_or]) (x.getLast hx)
    (List.getLast?_eq_some_getLast hx)
  rw [isBlank_of_mem_hidden hlast] at hblank
  exact Bool.false_ne_true hblank.symm

namespace Hides

variable {inside : Bool} {text visible taken rest : List Char}

/-- **A clear parting of the visible text is a boundary of the text.** -/
theorem isBoundary (h : Hides inside text visible) (hsplit : visible = taken ++ rest)
    (hclear : IsClear taken rest) : IsBoundary text (byteSize taken) := by
  induction h generalizing taken with
  | nil inside =>
    obtain ⟨rfl, -⟩ := List.append_eq_nil_iff.1 hsplit.symm
    exact .zero _
  | @kept inside c cs visible h ih =>
    cases taken with
    | nil => exact .zero _
    | cons d taken =>
      obtain ⟨rfl, htail⟩ := List.cons_eq_cons.1 hsplit
      exact (ih htail (hclear.of_append_left (a := [c]))).cons c
  | @hid inside next c cs visible _ h ih =>
    -- the parting behind the blanks of the hidden character
    have hbehind : ∀ later, visible = later ++ rest → IsClear (hidden c ++ later) rest →
        IsBoundary (c :: cs) (byteSize (hidden c ++ later)) := by
      intro later hlater hclear
      rw [Text.byteSize_append, byteSize_hidden]
      exact (ih hlater hclear.of_append_left).cons c
    rcases List.append_eq_append_iff.1 hsplit with ⟨later, rfl, hlater⟩ | ⟨left, hleft, hrest⟩
    · exact hbehind later hlater hclear
    · by_cases hnil : left = []
      · rw [hnil, List.append_nil] at hleft
        rw [hnil, List.nil_append] at hrest
        rw [← hleft, ← List.append_nil (hidden c)] at hclear ⊢
        exact hbehind [] hrest.symm hclear
      · rw [hrest] at hclear
        rw [hidden_not_parted hleft hclear hnil]
        exact .zero _

/-- **Another boundary lies behind the next visible character.** -/
theorem isBoundary_next {d : Char} (h : Hides inside text visible)
    (hsplit : visible = taken ++ d :: rest) (hclear : IsClear taken (d :: rest))
    (hinside : taken = [] → d = ' ' → inside = false) :
    IsBoundary text (byteSize taken + d.utf8Size) := by
  induction h generalizing taken with
  | nil inside => exact absurd hsplit.symm (by simp)
  | @kept inside c cs visible h ih =>
    cases taken with
    | nil =>
      obtain ⟨rfl, -⟩ := List.cons_eq_cons.1 hsplit
      rw [Text.byteSize_nil, Nat.add_comm]
      exact (IsBoundary.zero cs).cons c
    | cons e taken =>
      obtain ⟨rfl, htail⟩ := List.cons_eq_cons.1 hsplit
      rw [Text.byteSize_cons, Nat.add_assoc]
      exact (ih htail (hclear.of_append_left (a := [c])) fun _ _ => rfl).cons c
  | @hid inside next c cs visible hsize h ih =>
    have hne : hidden c ≠ [] := by
      intro hnil
      have hzero := byteSize_hidden c
      rw [hnil, Text.byteSize_nil] at hzero
      exact absurd c.utf8Size_pos (by omega)
    have hbehind : ∀ later, visible = later ++ d :: rest → IsClear (hidden c ++ later) (d :: rest) →
        IsBoundary (c :: cs) (byteSize (hidden c ++ later) + d.utf8Size) := by
      intro later hlater hclear
      rw [Text.byteSize_append, byteSize_hidden, Nat.add_assoc]
      refine (ih hlater hclear.of_append_left fun hnil hd => ?_).cons c
      -- a space behind the blanks is no clear parting
      rw [hnil, List.append_nil, hd] at hclear
      have hblank := hclear rfl _ (List.getLast?_eq_some_getLast hne)
      rw [isBlank_of_mem_hidden (List.getLast_mem hne)] at hblank
      exact absurd hblank (by decide)
    rcases List.append_eq_append_iff.1 hsplit with ⟨later, rfl, hlater⟩ | ⟨left, hleft, hrest⟩
    · exact hbehind later hlater hclear
    · by_cases hnil : left = []
      · rw [hnil, List.append_nil] at hleft
        rw [hnil, List.nil_append] at hrest
        rw [← hleft, ← List.append_nil (hidden c)] at hclear ⊢
        exact hbehind [] hrest.symm hclear
      -- the next visible character is the first blank of the hidden one, so that has one byte
      · rw [hrest] at hclear
        obtain rfl := hidden_not_parted hleft hclear hnil
        obtain ⟨e, left, rfl⟩ := List.exists_cons_of_ne_nil hnil
        obtain rfl : d = e := (List.cons_eq_cons.1 hrest).1
        have hsame : d.utf8Size = c.utf8Size := by
          unfold hidden at hleft
          split at hleft
          · rw [List.nil_append, List.cons_eq_cons] at hleft
            rw [hleft.1]
          · have hd : d = ' ' := by
              have hmem : d ∈ List.replicate c.utf8Size ' ' := by
                rw [hleft]
                exact List.mem_cons_self
              exact List.eq_of_mem_replicate hmem
            rw [hsize (hinside rfl hd), hd]
            rfl
        rw [Text.byteSize_nil, hsame, Nat.add_comm]
        exact (IsBoundary.zero cs).cons c

end Hides

/-- Marks of comments start with a character of one byte, and brackets are such characters. -/
structure IsNarrow (k : Conventions) : Prop where
  head_mark : ∀ m ∈ k.marks, (m.head?.any fun c => c.utf8Size = 1) = true
  bracket : ∀ b ∈ k.brackets, (b.1.utf8Size = 1 ∧ b.1 ≠ ' ') ∧ (b.2.utf8Size = 1 ∧ b.2 ≠ ' ')

/-- What comes next belongs to a comment whatever it is. -/
@[simp] def CommentMode.isInside : CommentMode → Bool
  | .code marks _ => decide (marks ≠ 0)
  | .quoted _ => false
  | .line => true
  | .block _ _ _ => true

/-- The offset of the block comment that is open. -/
@[simp] def CommentMode.openedAt? : CommentMode → Option Nat
  | .block _ _ openedAt => some openedAt
  | _ => none

variable {k : Conventions} {mode : CommentMode} {pos : Nat} {c : Char} {cs : List Char}

/-- A comment begins with a character of one byte. -/
theorem utf8Size_of_isPrefixOf (hk : k.IsNarrow) {m : List Char} (hm : m ∈ k.marks)
    (h : m.isPrefixOf (c :: cs) = true) : c.utf8Size = 1 := by
  obtain ⟨d, hd, hsize⟩ := (Option.any_eq_true _ _).1 (hk.head_mark m hm)
  obtain ⟨rest, hrest⟩ := List.isPrefixOf_iff_prefix.1 h
  have hhead : (c :: cs).head? = some d := by
    rw [← hrest, List.head?_append, hd, Option.some_or]
  obtain rfl : c = d := by simpa using hhead
  exact of_decide_eq_true hsize

/-- The opener of block comments is one of the marks. -/
theorem opener_mem_marks {opener closer : List Char} (h : k.blockComment? = some (opener, closer)) :
    opener ∈ k.marks := by
  rw [marks, h]
  exact List.mem_append_right _ (List.mem_singleton_self _)

/-- A line comment begins with one of the marks. -/
theorem exists_mark_of_startsLineComment {lineStart : Bool}
    (h : k.startsLineComment lineStart cs = true) : ∃ m ∈ k.marks, m.isPrefixOf cs = true := by
  unfold startsLineComment at h
  rw [Bool.or_eq_true, Bool.and_eq_true, List.any_eq_true, List.any_eq_true] at h
  rcases h with ⟨m, hm, hstart⟩ | ⟨-, m, hm, hstart⟩
  · exact ⟨m, List.mem_append_left _ (List.mem_append_left _ hm), hstart⟩
  · exact ⟨m, List.mem_append_left _ (List.mem_append_right _ hm), hstart⟩

/-- A block comment begins with the opener of the notation. -/
theorem startsBlockComment?_eq_some {opener closer : List Char}
    (h : k.startsBlockComment? cs = some (opener, closer)) :
    k.blockComment? = some (opener, closer) ∧ opener.isPrefixOf cs = true := by
  obtain ⟨hblock, hstart⟩ := Option.filter_eq_some_iff.1 h
  rw [Bool.and_eq_true] at hstart
  exact ⟨hblock, hstart.1⟩

/-- A character of a block comment is hidden, and no other block comment is open behind it. -/
theorem blockStep_spec (closer : List Char) (marks : Nat) (lineStart : Bool) (openedAt : Nat)
    (c : Char) (cs : List Char) :
    (blockStep closer marks lineStart openedAt c cs).2 = true ∧
      ∀ opened ∈ (blockStep closer marks lineStart openedAt c cs).1.openedAt?, opened = openedAt := by
  unfold blockStep
  split
  · split <;> simp [eq_comm]
  · split <;> simp [eq_comm]

/-- **What one character does to a comment**: behind a visible character no comment is open; the
first character of a comment has one byte; and a block comment that is open now was open before or
starts here. -/
theorem commentStep_spec (hk : k.IsNarrow) (pos : Nat) (mode : CommentMode) (c : Char)
    (cs : List Char) :
    ((k.commentStep pos mode c cs).2 = false → (k.commentStep pos mode c cs).1.isInside = false) ∧
      ((k.commentStep pos mode c cs).2 = true → mode.isInside = false → c.utf8Size = 1) ∧
      ∀ openedAt ∈ (k.commentStep pos mode c cs).1.openedAt?, openedAt ∈ mode.openedAt? ∨
        openedAt = pos ∧ ∃ opener closer, k.blockComment? = some (opener, closer) ∧
          opener.isPrefixOf (c :: cs) = true := by
  unfold commentStep
  split
  -- a block comment goes on
  · next marks lineStart openedAt =>
    split
    · next opener closer hblock =>
      obtain ⟨hhidden, hopened⟩ := blockStep_spec closer marks lineStart openedAt c cs
      refine ⟨fun hshown => absurd hshown (by simp [hhidden]), by simp, fun opened hmem => ?_⟩
      rw [hopened opened hmem]
      exact Or.inl rfl
    · simp
  · simp
  · split <;> simp
  · split
    · simp
    · split
      · simp
      · split
        · simp
        · split <;> simp
  · next lineStart =>
    split
    · simp
    · split
      -- a block comment starts
      · next opener closer hstart =>
        obtain ⟨hblock, hstart⟩ := startsBlockComment?_eq_some hstart
        obtain ⟨hhidden, hopened⟩ := blockStep_spec closer opener.length lineStart pos c cs
        refine ⟨fun hshown => absurd hshown (by simp [hhidden]),
          fun _ _ => utf8Size_of_isPrefixOf hk (opener_mem_marks hblock) hstart, fun opened hmem => ?_⟩
        exact Or.inr ⟨hopened opened hmem, opener, closer, hblock, hstart⟩
      · split
        · next hline =>
          obtain ⟨m, hm, hstart⟩ := exists_mark_of_startsLineComment hline
          refine ⟨by simp, fun _ _ => utf8Size_of_isPrefixOf hk hm hstart, ?_⟩
          simp
        · split <;> simp

/-- At the end of the source nothing more is visible. -/
theorem eq_nil_of_hideFrom {visible : List Char} (h : k.hideFrom pos mode [] = .ok visible) :
    visible = [] := by
  cases mode with
  | block => exact absurd h (by simp [hideFrom])
  | code | quoted | line =>
    rw [hideFrom] at h
    · exact (Except.ok.inj h).symm
    · simp

/-- What is seen of a text is what is shown for its first character and what is seen behind it. -/
theorem exists_of_hideFrom_cons {visible : List Char} (h : k.hideFrom pos mode (c :: cs) = .ok visible) :
    ∃ rest, k.hideFrom (pos + c.utf8Size) (k.commentStep pos mode c cs).1 cs = .ok rest ∧
      visible = (if (k.commentStep pos mode c cs).2 then hidden c else [c]) ++ rest := by
  rw [hideFrom] at h
  generalize k.commentStep pos mode c cs = step at h ⊢
  obtain ⟨next, inComment⟩ := step
  dsimp only at h ⊢
  split at h
  · next rest hrest => exact ⟨rest, hrest, (Except.ok.inj h).symm⟩
  · exact absurd h (by simp)

/-- **The reader of comments hides characters of comments only.** -/
theorem hides_hideFrom (hk : k.IsNarrow) {visible : List Char}
    (h : k.hideFrom pos mode cs = .ok visible) : Hides mode.isInside cs visible := by
  induction cs generalizing pos mode visible with
  | nil =>
    rw [eq_nil_of_hideFrom h]
    exact .nil _
  | cons c cs ih =>
    obtain ⟨rest, hrest, rfl⟩ := exists_of_hideFrom_cons h
    obtain ⟨hkept, hsize, -⟩ := commentStep_spec hk pos mode c cs
    have hnext := ih hrest
    cases hshown : (k.commentStep pos mode c cs).2 with
    | false =>
      rw [hkept hshown] at hnext
      exact .kept hnext
    | true => exact .hid (hsize hshown) hnext

/-- A block comment that is not closed was open before or starts in the text. -/
theorem opener_of_hideFrom (hk : k.IsNarrow) {openedAt : Nat}
    (h : k.hideFrom pos mode cs = .error openedAt) :
    openedAt ∈ mode.openedAt? ∨ ∃ before after opener closer, cs = before ++ (opener ++ after) ∧
      openedAt = pos + byteSize before ∧ k.blockComment? = some (opener, closer) := by
  induction cs generalizing pos mode with
  | nil =>
    cases mode with
    | block marks lineStart opened =>
      obtain rfl : opened = openedAt := by simpa [hideFrom] using h
      exact Or.inl rfl
    | code | quoted | line =>
      rw [hideFrom] at h
      · exact absurd h (by simp)
      · simp
  | cons c cs ih =>
    obtain ⟨-, -, hopened⟩ := commentStep_spec hk pos mode c cs
    rw [hideFrom] at h
    generalize k.commentStep pos mode c cs = next at h hopened
    obtain ⟨next, inComment⟩ := next
    dsimp only at h hopened
    split at h
    · exact absurd h (by simp)
    · next opened hrest =>
      obtain rfl := Except.error.inj h
      rcases ih hrest with hmode | ⟨before, after, opener, closer, rfl, rfl, hblock⟩
      · rcases hopened _ hmode with hold | ⟨rfl, opener, closer, hblock, hstart⟩
        · exact Or.inl hold
        · obtain ⟨rest, hrest⟩ := List.isPrefixOf_iff_prefix.1 hstart
          exact Or.inr ⟨[], rest, opener, closer, hrest.symm, rfl, hblock⟩
      · refine Or.inr ⟨c :: before, after, opener, closer, rfl, ?_, hblock⟩
        rw [Text.byteSize_cons, Nat.add_assoc]

end Conventions

/-! ## Statements in a source -/

namespace Statement

/-- **The statement stands in the source**: where it is parted clearly the source has a boundary, and
another one behind the next character. -/
structure StandsIn (source : List Char) (s : Statement) : Prop where
  boundary : ∀ taken rest, s.text = taken ++ rest → IsClear taken rest →
    IsBoundary source (s.offset + byteSize taken)
  next : ∀ taken c rest, s.text = taken ++ c :: rest → IsClear taken (c :: rest) →
    IsBoundary source (s.offset + byteSize taken + c.utf8Size)

variable {source : List Char} {s whole : Statement}

/-- A statement that stands in a source spans a part of it. -/
theorem StandsIn.isWithin_span (h : s.StandsIn source) : s.span.IsWithin source := by
  refine Span.isWithin_ofRange ?_ ?_
  · exact h.boundary [] s.text rfl (.nil_left _)
  · exact h.boundary s.text [] (List.append_nil _).symm (.nil_right _)

/-- A part that is parted clearly from what surrounds it stands in the source too. -/
theorem StandsIn.part (h : whole.StandsIn source) {a b : List Char}
    (htext : whole.text = a ++ (s.text ++ b)) (hoffset : s.offset = whole.offset + byteSize a)
    (hfirst : IsClear a (s.text ++ b)) (hlast : IsClear (a ++ s.text) b) : s.StandsIn source := by
  constructor
  · intro taken rest hsplit hclear
    rw [hsplit] at htext hfirst hlast
    have hwhole := h.boundary (a ++ taken) (rest ++ b) (by rw [htext]; simp [List.append_assoc])
      (hclear.append hfirst hlast)
    rwa [Text.byteSize_append, ← Nat.add_assoc, ← hoffset] at hwhole
  · intro taken c rest hsplit hclear
    rw [hsplit] at htext hfirst hlast
    have hwhole := h.next (a ++ taken) c (rest ++ b) (by rw [htext]; simp [List.append_assoc])
      (hclear.append hfirst hlast)
    rwa [Text.byteSize_append, ← Nat.add_assoc, ← hoffset] at hwhole

/-- A part that is trimmed, if anything is left of it. -/
theorem StandsIn.trim (h : whole.StandsIn source) {a b : List Char}
    (htext : whole.text = a ++ (s.text ++ b)) (hoffset : s.offset = whole.offset + byteSize a)
    (hne : s.trim.text ≠ []) : s.trim.StandsIn source := by
  obtain ⟨blank, -, hs⟩ : ∃ blank, (∀ c ∈ blank, isBlank c = true) ∧
      s.text = s.text.takeWhile isBlank ++ (s.trim.text ++ blank) := Text.exists_trim_append s.text
  refine h.part (a := a ++ s.text.takeWhile isBlank) (b := blank ++ b) ?_ ?_ ?_ ?_
  · rw [htext]
    nth_rewrite 1 [hs]
    simp only [List.append_assoc]
  · show s.offset + byteSize (s.text.takeWhile isBlank) = _
    rw [hoffset, Text.byteSize_append, Nat.add_assoc]
  · refine IsClear.of_head_not_blank ?_
    rw [List.head?_append_of_ne_nil _ hne]
    exact Text.head?_trim s.text
  · refine IsClear.of_last ?_
    rw [List.getLast?_append_of_ne_nil _ hne]
    exact Text.getLast?_trim s.text

end Statement

namespace Conventions

open Statement (StandsIn)

variable {k : Conventions} {source : List Char}

/-- **What is left when comments are hidden stands in the source**, where the text stood. -/
theorem places_hideComments (hk : k.IsNarrow) {before text : List Char} {offset : Nat}
    (hsource : source = before ++ text) (hoffset : offset = byteSize before) :
    Places source (k.hideComments offset text) fun visible => StandsIn source ⟨visible, offset⟩ := by
  rw [hoffset]
  unfold hideComments
  split
  · next visible hvisible =>
    have hhides : Hides false text visible := hides_hideFrom hk hvisible
    refine .of_ok ⟨?_, ?_⟩
    · intro taken rest hsplit hclear
      rw [hsource]
      exact (hhides.isBoundary hsplit hclear).append_left before
    · intro taken c rest hsplit hclear
      rw [hsource, Nat.add_assoc]
      exact (hhides.isBoundary_next hsplit hclear fun _ _ => rfl).append_left before
  · next openedAt hopened =>
    rcases opener_of_hideFrom hk hopened with hno | ⟨front, after, opener, closer, rfl, rfl, hblock⟩
    · exact absurd hno (by simp)
    · have hstart : IsBoundary source (byteSize before + byteSize front) :=
        ⟨before ++ front, opener ++ after, by rw [hsource]; simp [List.append_assoc],
          Text.byteSize_append _ _⟩
      have hstop : IsBoundary source (byteSize before + byteSize front + byteSize opener) :=
        ⟨before ++ (front ++ opener), after, by rw [hsource]; simp [List.append_assoc],
          by rw [Text.byteSize_append, Text.byteSize_append, Nat.add_assoc]⟩
      rw [hblock]
      exact Places.of_label (Span.isWithin_ofRange hstart hstop) rfl rfl rfl rfl

/-- **What is visible of a source stands in it**, or the comment that is not closed is pointed to. -/
theorem places_hideComments_source (hk : k.IsNarrow) (source : List Char) :
    Places source (k.hideComments 0 source) fun visible => StandsIn source ⟨visible, 0⟩ :=
  places_hideComments hk (List.nil_append source).symm rfl

/-! ## Cutting -/

/-- The places that the cutter has noted: where a string was opened, and the opening brackets. -/
structure CutState.IsPlaced (source : List Char) (state : CutState) : Prop where
  quote : ∀ q ∈ state.quote, IsBoundary source q.1
  due : ∀ p ∈ state.due, IsBoundary source p.2 ∧ IsBoundary source (p.2 + 1)

/-- **What one character does to the cutter**: the places stay boundaries, and where the cutter stops
its complaint is placed. -/
theorem cutStep_isPlaced (hk : k.IsNarrow) {state : CutState} {pos : Nat} {c : Char}
    (hstate : state.IsPlaced source)
    (hpos : c ≠ ' ' → IsBoundary source pos ∧ IsBoundary source (pos + c.utf8Size)) :
    Yields (k.cutStep pos state c) (fun next => next.1.IsPlaced source)
      fun imbalance => imbalance.diagnostic.IsPlaced source := by
  unfold cutStep
  split
  -- inside a string its opening quote stays noted
  · next openedAt escaped hquote =>
    have hopened := hstate.quote _ hquote
    have hstay : ∀ escaped, CutState.IsPlaced source
        { state with quote := some (openedAt, escaped) } := by
      refine fun escaped => ⟨fun q hq => ?_, hstate.due⟩
      obtain rfl : (openedAt, escaped) = q := by simpa using hq
      exact hopened
    split
    · next hfeed =>
      obtain ⟨hhere, -⟩ := hpos (by rw [hfeed]; decide)
      exact .of_error (Diagnostic.isPlaced_of_label (Span.isWithin_ofRange hopened hhere) rfl rfl rfl
        rfl)
    split
    · exact .of_ok (hstay false)
    split
    · exact .of_ok (hstay true)
    split
    · exact .of_ok ⟨fun q hq => absurd hq (by simp), hstate.due⟩
    · exact .of_ok hstate
  · split
    · next hquote =>
      obtain ⟨hhere, -⟩ := hpos (by rw [hquote]; decide)
      refine .of_ok ⟨fun q hq => ?_, hstate.due⟩
      obtain rfl : (pos, false) = q := by simpa using hq
      exact hhere
    split
    -- an opening bracket is noted
    · next opener closer hfind =>
      have heq := List.find?_some hfind
      obtain rfl : opener = c := by simpa using heq
      obtain ⟨⟨hsize, hne⟩, -⟩ := hk.bracket _ (List.mem_of_find?_eq_some hfind)
      have hhere := hpos hne
      rw [hsize] at hhere
      exact .of_ok ⟨hstate.quote, List.forall_mem_cons.2 ⟨hhere, hstate.due⟩⟩
    split
    -- a closing bracket must be the one that is due
    · next hany =>
      obtain ⟨b, hb, heq⟩ := List.any_eq_true.1 hany
      obtain rfl : b.2 = c := by simpa using heq
      obtain ⟨-, hsize, hne⟩ := hk.bracket _ hb
      obtain ⟨hhere, hbehind⟩ := hpos hne
      rw [hsize] at hbehind
      have hfound := Span.isWithin_ofRange hhere hbehind
      split
      · exact .of_error (Diagnostic.isPlaced_of_label hfound rfl rfl rfl rfl)
      · next expected openedAt due hdue =>
        have hall := hstate.due
        rw [hdue, List.forall_mem_cons] at hall
        split
        · exact .of_ok ⟨hstate.quote, hall.2⟩
        · have hopened := Span.isWithin_ofRange hall.1.1 hall.1.2
          exact .of_error (Diagnostic.isPlaced_of_labels hfound (List.forall_mem_singleton.2 hopened)
            rfl rfl rfl rfl)
    · exact .of_ok hstate

/-- What is left open at the end is reported where it was opened. -/
theorem cutEnd_isPlaced {state : CutState} {pos : Nat} (hstate : state.IsPlaced source)
    (hpos : IsBoundary source pos) :
    Yields (cutEnd pos state) (fun _ => True)
      fun imbalance => imbalance.diagnostic.IsPlaced source := by
  unfold cutEnd
  split
  · next openedAt escaped hquote =>
    have hspan := Span.isWithin_ofRange (hstate.quote _ hquote) hpos
    exact .of_error (Diagnostic.isPlaced_of_label hspan rfl rfl rfl rfl)
  · next expected openedAt due hdue =>
    have hall := hstate.due
    rw [hdue, List.forall_mem_cons] at hall
    have hspan := Span.isWithin_ofRange hall.1.1 hall.1.2
    exact .of_error (Diagnostic.isPlaced_of_label hspan rfl rfl rfl rfl)
  · exact .of_ok trivial

/-- **Where a text cannot be cut, the complaint is placed.** -/
theorem isPlaced_of_cut (hk : k.IsNarrow) {whole : Statement} (hwhole : whole.StandsIn source)
    (done : List Char) {cs : List Char} {state : CutState} {imbalance : Imbalance}
    (htext : whole.text = done ++ cs) (hstate : state.IsPlaced source)
    (h : k.cut (whole.offset + byteSize done) state cs = .error imbalance) :
    imbalance.diagnostic.IsPlaced source := by
  induction cs generalizing done state with
  | nil =>
    have hend := cutEnd_isPlaced hstate (hwhole.boundary done [] htext (.nil_right _))
    rw [cut] at h
    split at h
    · exact absurd h (by simp)
    · next hcut =>
      obtain rfl := Except.error.inj h
      exact hend.error _ hcut
  | cons c cs ih =>
    have hpos : c ≠ ' ' → IsBoundary source (whole.offset + byteSize done) ∧
        IsBoundary source (whole.offset + byteSize done + c.utf8Size) := by
      intro hc
      have hclear : IsClear done (c :: cs) := .of_head (by simpa using hc)
      exact ⟨hwhole.boundary done _ htext hclear, hwhole.next done c cs htext hclear⟩
    have hstep := cutStep_isPlaced hk hstate hpos
    rw [cut] at h
    split at h
    · next hcut =>
      obtain rfl := Except.error.inj h
      exact hstep.error _ hcut
    · next next ends hcut =>
      split at h
      · next hrest =>
        obtain rfl := Except.error.inj h
        refine ih (done ++ [c]) (by rw [htext]; simp) (hstep.ok _ hcut) ?_
        rw [Text.byteSize_append, Text.byteSize_cons, Text.byteSize_nil, Nat.add_zero,
          ← Nat.add_assoc]
        exact hrest
      · split at h <;> exact absurd h (by simp)

/-- Cutting gives parts of the text at their offsets. -/
theorem parts_of_cut {pos : Nat} {state : CutState} {cs piece : List Char} {later : List Statement}
    (h : k.cut pos state cs = .ok (piece, later)) :
    (∃ b, cs = piece ++ b) ∧
      ∀ s ∈ later, ∃ a b, cs = a ++ (s.text ++ b) ∧ s.offset = pos + byteSize a := by
  induction cs generalizing pos state piece later with
  | nil =>
    rw [cut] at h
    split at h
    · obtain ⟨rfl, rfl⟩ := Prod.mk.inj (Except.ok.inj h)
      exact ⟨⟨[], rfl⟩, List.forall_mem_nil _⟩
    · exact absurd h (by simp)
  | cons c cs ih =>
    rw [cut] at h
    split at h
    · exact absurd h (by simp)
    · split at h
      · exact absurd h (by simp)
      · next first rest hcut =>
        obtain ⟨⟨b, hb⟩, hrest⟩ := ih hcut
        -- what was cut from the rest is cut from the text, one character later
        have hlater : ∀ s ∈ rest, ∃ a b, c :: cs = a ++ (s.text ++ b) ∧
            s.offset = pos + byteSize a := by
          intro s hs
          obtain ⟨a, b, rfl, hoffset⟩ := hrest s hs
          exact ⟨c :: a, b, rfl, by rw [hoffset, Text.byteSize_cons, Nat.add_assoc]⟩
        split at h
        · obtain ⟨rfl, rfl⟩ := Prod.mk.inj (Except.ok.inj h)
          refine ⟨⟨c :: cs, rfl⟩, List.forall_mem_cons.2 ⟨⟨[c], b, by rw [hb]; rfl, ?_⟩, hlater⟩⟩
          rw [Text.byteSize_cons, Text.byteSize_nil, Nat.add_zero]
        · obtain ⟨rfl, rfl⟩ := Prod.mk.inj (Except.ok.inj h)
          exact ⟨⟨b, by rw [hb, List.cons_append]⟩, hlater⟩

/-- **The statements of a text that stands in the source stand there too.** -/
theorem places_statements (hk : k.IsNarrow) {whole : Statement} (hwhole : whole.StandsIn source) :
    Places source (k.statements whole.offset whole.text) fun found =>
      ∀ s ∈ found, s.StandsIn source := by
  unfold statements
  split
  · next piece later hcut =>
    obtain ⟨⟨rest, hpiece⟩, hlater⟩ := parts_of_cut hcut
    have hparts : ∀ s ∈ (⟨piece, whole.offset⟩ : Statement) :: later,
        ∃ a b, whole.text = a ++ (s.text ++ b) ∧ s.offset = whole.offset + byteSize a :=
      List.forall_mem_cons.2 ⟨⟨[], rest, hpiece, rfl⟩, hlater⟩
    refine .of_ok fun s hs => ?_
    obtain ⟨hs, hne⟩ := List.mem_filter.1 hs
    obtain ⟨t, ht, rfl⟩ := List.mem_map.1 hs
    obtain ⟨a, b, htext, hoffset⟩ := hparts t ht
    refine hwhole.trim htext hoffset fun hnil => ?_
    rw [hnil] at hne
    exact absurd hne (by decide)
  · next imbalance hcut =>
    exact .of_error (isPlaced_of_cut hk hwhole [] rfl ⟨by simp, by simp⟩ hcut)

end Conventions

end Flowchart
