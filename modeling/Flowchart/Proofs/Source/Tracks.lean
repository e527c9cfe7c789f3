import Flowchart.Proofs.Source.Reads
import Flowchart.Proofs.Source.Visible

/-!
# Where a reader of a statement stops

A cursor is *at* a place of a statement if it parts the statement clearly (`Cursor.IsAt`). Started at
such a place, a reader goes on to such places only, never backwards, and stops at one:
`Reader.Tracks s c r post` says this of the reader `r` and the cursor `c`, and that its value and its
last place satisfy `post`.

Every combinator has a rule, so that a reader is tracked along its own steps. **What a tracked reader
complains about is placed in the source** in which the statement stands, and so are the spans that
it has noted. Where it is known what a tracked reader leaves, so is the offset at which it stops.
-/

namespace Flowchart

open Text (byteSize isBlank isWordChar)

/-! ## Places of a statement -/

/-- The cursor parts the statement clearly. -/
def Cursor.IsAt (s : Statement) (c : Cursor) : Prop :=
  ∃ taken, s.text = taken ++ c.rest ∧ IsClear taken c.rest ∧ c.pos = s.offset + byteSize taken

/-- A cursor at a place of the statement has this offset. -/
def Statement.IsPlace (s : Statement) (offset : Nat) : Prop := ∃ c : Cursor, c.IsAt s ∧ c.pos = offset

/-- The span runs from a place of the statement to another one. -/
structure Span.IsIn (s : Statement) (span : Span) : Prop where
  start : s.IsPlace span.start
  stop : s.IsPlace span.stop

/-- The reader stopped at a place of the statement. A fault began at a place before it, or else at a
character of one byte or at the end. -/
def Stop.IsIn (s : Statement) : Stop → Prop
  | .expected _ place => place.IsAt s
  | .fault _ start place => place.IsAt s ∧ s.IsPlace start ∧
      (start < place.pos ∨ start = place.pos ∧ ∀ c ∈ place.rest.head?, c.utf8Size = 1)

section

variable {source : List Char} {s : Statement} {c : Cursor} {taken rest : List Char}

/-- A piece that is not empty moves a cursor on. -/
theorem byteSize_pos (h : taken ≠ []) : 0 < byteSize taken := by
  obtain ⟨d, rest, rfl⟩ := List.exists_cons_of_ne_nil h
  have hpos := d.utf8Size_pos
  rw [Text.byteSize_cons]
  omega

/-- A statement begins where its text does. -/
theorem Statement.isAt_cursor (s : Statement) : s.cursor.IsAt s :=
  ⟨[], rfl, .nil_left _, rfl⟩

namespace Cursor.IsAt

/-- Where a cursor of the statement stands is a place of it. -/
theorem isPlace (h : c.IsAt s) : s.IsPlace c.pos := ⟨c, h, rfl⟩

/-- **The source has a boundary at every place of a statement that stands in it.** -/
theorem isBoundary (h : c.IsAt s) (hs : s.StandsIn source) : IsBoundary source c.pos := by
  obtain ⟨taken, htext, hclear, hpos⟩ := h
  rw [hpos]
  exact hs.boundary taken c.rest htext hclear

/-- The place behind a character is a boundary of the source. -/
theorem isBoundary_next (h : c.IsAt s) (hs : s.StandsIn source) {d : Char} (hrest : c.rest = d :: rest) :
    IsBoundary source (c.pos + d.utf8Size) := by
  obtain ⟨taken, htext, hclear, hpos⟩ := h
  rw [hrest] at htext hclear
  rw [hpos]
  exact hs.next taken d rest htext hclear

/-- A cursor and what is left behind it make up the whole statement. -/
theorem pos_le (h : c.IsAt s) : c.pos + byteSize c.rest = s.offset + byteSize s.text := by
  obtain ⟨taken, htext, -, hpos⟩ := h
  rw [htext, Text.byteSize_append, hpos, Nat.add_assoc]

/-- Behind a text that ends clearly there is a place again. -/
theorem after (h : c.IsAt s) (hrest : c.rest = taken ++ rest)
    (hclear : taken ≠ [] → IsClear taken rest) : (c.after taken rest).IsAt s := by
  obtain ⟨done, htext, hdone, hpos⟩ := h
  refine ⟨done ++ taken, ?_, ?_, ?_⟩
  · rw [htext, hrest, List.append_assoc]
    rfl
  · by_cases hnil : taken = []
    · rw [hnil, List.append_nil]
      rwa [hrest, hnil, List.nil_append] at hdone
    · intro hhead
      rw [List.getLast?_append_of_ne_nil _ hnil]
      exact hclear hnil hhead
  · show c.pos + byteSize taken = _
    rw [hpos, Text.byteSize_append, Nat.add_assoc]

end Cursor.IsAt

/-- **A place of a statement is a boundary of its source.** -/
theorem Statement.IsPlace.isBoundary {offset : Nat} (h : s.IsPlace offset) (hs : s.StandsIn source) :
    IsBoundary source offset := by
  obtain ⟨c, hc, rfl⟩ := h
  exact hc.isBoundary hs

/-- A span between places of a statement lies within its source. -/
theorem Span.IsIn.isWithin {span : Span} (h : span.IsIn s) (hs : s.StandsIn source) :
    span.IsWithin source :=
  ⟨h.start.isBoundary hs, h.stop.isBoundary hs⟩

/-- Two places bound a span, in whichever order they come. -/
theorem Span.isIn_ofRange {start stop : Nat} (hstart : s.IsPlace start) (hstop : s.IsPlace stop) :
    (Span.ofRange start stop).IsIn s := by
  refine ⟨hstart, ?_⟩
  show s.IsPlace (max stop start)
  rcases Nat.le_total start stop with h | h
  · rwa [Nat.max_eq_left h]
  · rwa [Nat.max_eq_right h]

/-- Moving on to the rest of a text is moving behind what was taken of it. -/
theorem Cursor.moveTo_eq (hrest : c.rest = taken ++ rest) : c.moveTo rest = c.after taken rest := by
  rw [moveTo, after, hrest, Text.byteSize_append, Nat.add_sub_cancel]

/-- **What a reader says where it stops is placed.** -/
theorem Statement.isPlaced_diagnose (hs : s.StandsIn source) {stop : Stop} (h : stop.IsIn s) :
    (s.diagnose stop).IsPlaced source := by
  cases stop with
  | expected names place =>
    unfold diagnose
    dsimp only
    split
    · next found rest hrest =>
      have hspan := Span.isWithin_ofRange (h.isBoundary hs) (h.isBoundary_next hs hrest)
      exact Diagnostic.isPlaced_of_label hspan rfl rfl rfl rfl
    · exact Diagnostic.isPlaced_of_label hs.isWithin_span rfl rfl rfl rfl
  | fault f start place =>
    obtain ⟨hplace, hstart, hbefore⟩ := h
    have hend := hplace.pos_le
    have hleft : min start place.pos = start := by omega
    have hright : ∀ stop,
        stop = max (min (max place.pos (start + 1)) (s.offset + byteSize s.text)) start →
          IsBoundary source stop := by
      intro stop hstop
      rcases hbefore with hlt | ⟨heq, hsize⟩
      · obtain rfl : stop = place.pos := by omega
        exact hplace.isBoundary hs
      -- a fault that begins where it stops is marked at the next character
      · cases hrest : place.rest with
        | nil =>
          rw [hrest, Text.byteSize_nil] at hend
          obtain rfl : stop = place.pos := by omega
          exact hplace.isBoundary hs
        | cons d rest =>
          have hone : d.utf8Size = 1 := hsize d (by rw [hrest]; rfl)
          rw [hrest, Text.byteSize_cons] at hend
          obtain rfl : stop = place.pos + d.utf8Size := by omega
          exact hplace.isBoundary_next hs hrest
    have hspan : (Span.ofRange (min start place.pos)
        (max (min (max place.pos (min start place.pos + 1)) (s.offset + byteSize s.text))
          (min start place.pos))).IsWithin source := by
      rw [hleft]
      exact Span.isWithin_ofRange (hstart.isBoundary hs) (hright _ rfl)
    exact Diagnostic.isPlaced_of_label hspan rfl rfl rfl rfl

end

/-! ## Tracked readers -/

namespace Reader

variable {α β : Type} {s : Statement} {c : Cursor} {r first second yes no : Reader α}
variable {f : α → Reader β} {P P' : α → Cursor → Prop} {Q : β → Cursor → Prop}
variable {mark taken rest : List Char}

/-- Started at `c`, the reader goes on to a place of the statement, where its value satisfies `post`,
or stops at one. -/
def Tracks (s : Statement) (c : Cursor) (r : Reader α) (post : α → Cursor → Prop) : Prop :=
  Yields (r c) (fun found => found.2.IsAt s ∧ c.pos ≤ found.2.pos ∧ post found.1 found.2)
    (Stop.IsIn s)

/-! ### Sequences -/

/-- A reader that does not stop. -/
theorem Tracks.of_eq_ok {a : α} {c' : Cursor} (h : r c = .ok (a, c')) (hc' : c'.IsAt s)
    (hle : c.pos ≤ c'.pos) (ha : P a c') : Tracks s c r P := by
  rw [Tracks, h]
  exact .of_ok ⟨hc', hle, ha⟩

/-- A reader that stops. -/
theorem Tracks.of_eq_error {stop : Stop} (h : r c = .error stop) (hstop : stop.IsIn s) :
    Tracks s c r P := by
  rw [Tracks, h]
  exact .of_error hstop

/-- Where two readers do the same, one is tracked if the other is. -/
theorem Tracks.of_eq (hr : Tracks s c second P) (h : first c = second c) : Tracks s c first P := by
  rwa [Tracks, h]

/-- What is ready at hand leaves the cursor where it is. -/
theorem Tracks.pure {a : α} (hc : c.IsAt s) (ha : P a c) : Tracks s c (Pure.pure a) P :=
  .of_eq_ok rfl hc (Nat.le_refl _) ha

/-- A step that is known to come out at a later cursor is followed by a reader that is tracked from
there. -/
theorem Tracks.after {a : α} {c' : Cursor} (hread : r c = .ok (a, c')) (hle : c.pos ≤ c'.pos)
    (hf : Tracks s c' (f a) Q) : Tracks s c (r >>= f) Q := by
  rw [Tracks, bind_ok hread]
  exact hf.mono fun found ⟨hfound, hle', hpost⟩ => ⟨hfound, Nat.le_trans hle hle', hpost⟩

/-- **Tracked readers in sequence**: the second one starts at a cursor of the statement, and not
further left. -/
theorem Tracks.bind (hr : Tracks s c r P)
    (hf : ∀ a c', c'.IsAt s → c.pos ≤ c'.pos → P a c' → Tracks s c' (f a) Q) :
    Tracks s c (r >>= f) Q := by
  cases hread : r c with
  | error stop => exact .of_eq_error (bind_error hread) (hr.error stop hread)
  | ok found =>
    obtain ⟨hc', hle, ha⟩ := hr.ok found hread
    exact .after hread hle (hf found.1 found.2 hc' hle ha)

/-- A tracked reader may be said to come out at less than it does. -/
theorem Tracks.mono (hr : Tracks s c r P) (h : ∀ a c', c'.IsAt s → P a c' → P' a c') :
    Tracks s c r P' :=
  Yields.mono hr fun _ ⟨hfound, hle, hpost⟩ => ⟨hfound, hle, h _ _ hfound hpost⟩

/-- Changing a result does not move the cursor. -/
theorem Tracks.map {g : α → β} (hr : Tracks s c r P)
    (h : ∀ a c', c'.IsAt s → P a c' → Q (g a) c') : Tracks s c (g <$> r) Q :=
  hr.bind fun a c' hc' _ ha => .pure hc' (h a c' hc' ha)

/-! ### Names and alternatives -/

/-- Naming what is expected moves no complaint. -/
theorem Tracks.named (name : String) (hr : Tracks s c r P) : Tracks s c (Reader.named name r) P := by
  cases hread : r c with
  | ok found =>
    obtain ⟨hc', hle, ha⟩ := hr.ok found hread
    exact .of_eq_ok (by rw [Reader.named, hread]) hc' hle ha
  | error stop =>
    have hstop := hr.error stop hread
    cases stop with
    | expected names place =>
      have hnamed : (Stop.expected (names ++ [name]) place).IsIn s := hstop
      exact .of_eq_error (by rw [Reader.named, hread]) hnamed
    | fault fault start place => exact .of_eq_error (by rw [Reader.named, hread]) hstop

/-- An optional piece that is missing leaves the cursor where it is. -/
theorem Tracks.optional (hc : c.IsAt s) (hr : Tracks s c r P) :
    Tracks s c (Reader.optional r) fun o c' => ∀ a ∈ o, P a c' := by
  cases hread : r c with
  | ok found =>
    obtain ⟨hc', hle, ha⟩ := hr.ok found hread
    refine .of_eq_ok (by rw [Reader.optional, hread]) hc' hle fun b hb => ?_
    obtain rfl : found.1 = b := by simpa using hb
    exact ha
  | error stop =>
    cases stop with
    | expected names place =>
      exact .of_eq_ok (by rw [Reader.optional, hread]) hc (Nat.le_refl _) (by simp)
    | fault fault start place =>
      exact .of_eq_error (by rw [Reader.optional, hread]) (hr.error _ hread)

/-- Both alternatives start from the same cursor. -/
theorem Tracks.or (hfirst : Tracks s c first P) (hsecond : Tracks s c second P) :
    Tracks s c (Reader.or first second) P := by
  cases hread : first c with
  | ok found => exact hfirst.of_eq (by rw [Reader.or, hread])
  | error stop =>
    cases stop with
    | expected names place => exact hsecond.of_eq (by rw [Reader.or, hread])
    | fault fault start place => exact hfirst.of_eq (by rw [Reader.or, hread])

/-! ### Stopping -/

/-- A complaint about what was expected points to the cursor. -/
theorem tracks_expected (name : String) (hc : c.IsAt s) :
    Tracks s c (expected (α := α) name) P :=
  .of_eq_error rfl hc

/-- A fault behind the place where it began. -/
theorem tracks_fault (fault : Fault) {start : Nat} (hc : c.IsAt s) (hstart : s.IsPlace start)
    (hlt : start < c.pos) : Tracks s c (Reader.fault (α := α) fault start) P :=
  .of_eq_error rfl ⟨hc, hstart, Or.inl hlt⟩

/-- A fault at the end of the statement. -/
theorem tracks_fault_atEnd (fault : Fault) {start : Nat} (hc : c.IsAt s) (hstart : s.IsPlace start)
    (hle : start ≤ c.pos) (hend : c.rest = []) :
    Tracks s c (Reader.fault (α := α) fault start) P := by
  refine .of_eq_error rfl ⟨hc, hstart, ?_⟩
  rcases Nat.lt_or_eq_of_le hle with hlt | heq
  · exact Or.inl hlt
  · refine Or.inr ⟨heq, ?_⟩
    rw [hend]
    exact fun d hd => absurd hd (by simp)

/-- A fault that is noticed where it begins, at a character of one byte. -/
theorem tracks_fault_here (fault : Fault) (hc : c.IsAt s) {d : Char} (hrest : c.rest = d :: rest)
    (hsize : d.utf8Size = 1) : Tracks s c (Reader.fault (α := α) fault c.pos) P := by
  refine .of_eq_error rfl ⟨hc, hc.isPlace, Or.inr ⟨rfl, fun e he => ?_⟩⟩
  rw [hrest] at he
  obtain rfl : d = e := Option.some.inj he
  exact hsize

/-! ### Looking at the text -/

/-- A decision is tracked if both of its branches are. -/
theorem Tracks.ite {p : Prop} [Decidable p] (hyes : p → Tracks s c yes P)
    (hno : ¬ p → Tracks s c no P) : Tracks s c (if p then yes else no) P := by
  split
  · next h => exact hyes h
  · next h => exact hno h

theorem Tracks.cursor {f : Cursor → Reader β} (h : Tracks s c (f c) Q) :
    Tracks s c (Reader.cursor >>= f) Q :=
  h

theorem Tracks.position {f : Nat → Reader β} (h : Tracks s c (f c.pos) Q) :
    Tracks s c (Reader.position >>= f) Q :=
  h

/-- Asking whether the text is at its end moves nothing. -/
theorem Tracks.atEnd (hyes : Tracks s c yes P) (hno : Tracks s c no P) :
    Tracks s c (do if ← Reader.atEnd then yes else no) P := by
  cases hempty : c.rest.isEmpty with
  | true =>
    refine hyes.of_eq ?_
    show (if c.rest.isEmpty = true then yes else no) c = _
    rw [hempty, if_pos rfl]
  | false =>
    refine hno.of_eq ?_
    show (if c.rest.isEmpty = true then yes else no) c = _
    rw [hempty, if_neg Bool.false_ne_true]

/-- Looking at a mark moves nothing; the branch behind it knows that the mark comes next. -/
theorem Tracks.lookingAt (hyes : mark.isPrefixOf c.rest = true → Tracks s c yes P)
    (hno : Tracks s c no P) : Tracks s c (do if ← Reader.lookingAt mark then yes else no) P := by
  cases hstart : mark.isPrefixOf c.rest with
  | true =>
    refine (hyes hstart).of_eq ?_
    show (if mark.isPrefixOf c.rest = true then yes else no) c = _
    rw [hstart, if_pos rfl]
  | false =>
    refine hno.of_eq ?_
    show (if mark.isPrefixOf c.rest = true then yes else no) c = _
    rw [hstart, if_neg Bool.false_ne_true]

/-- A text that ends with a character that is no blank. -/
def EndsInk (mark : List Char) : Prop := (mark.getLast?.any fun d => !isBlank d) = true

instance (mark : List Char) : Decidable (EndsInk mark) := inferInstanceAs (Decidable (_ = _))

/-- A mark ends with ink if its last character is no blank. -/
theorem endsInk_iff : EndsInk mark ↔ ∃ d, mark.getLast? = some d ∧ isBlank d = false := by
  rw [EndsInk, Option.any_eq_true]
  simp only [Bool.not_eq_true']

/-- Nothing does not end with ink. -/
theorem EndsInk.ne_nil (h : EndsInk mark) : mark ≠ [] := by
  rintro rfl
  exact absurd h (by decide)

/-- A mark that ends with ink stays clear of whatever follows. -/
theorem EndsInk.isClear (h : EndsInk mark) (rest : List Char) : IsClear mark rest := by
  obtain ⟨d, hd, hblank⟩ := endsInk_iff.1 h
  refine .of_last fun e he => ?_
  obtain rfl : d = e := Option.some.inj (hd.symm.trans he)
  exact hblank

/-- What stands in front of the text does not matter. -/
theorem EndsInk.append_left (h : EndsInk mark) (taken : List Char) : EndsInk (taken ++ mark) := by
  rwa [EndsInk, List.getLast?_append_of_ne_nil _ h.ne_nil]

/-- A piece that is not empty ends with ink if no blank stands at its end. -/
theorem endsInk_of_getLast? (hne : taken ≠ []) (hlast : ∀ d ∈ taken.getLast?, isBlank d = false) :
    EndsInk taken :=
  endsInk_iff.2 ⟨_, List.getLast?_eq_some_getLast hne, hlast _ (List.getLast?_eq_some_getLast hne)⟩

/-- Behind a text that ends with ink there is a place further on. -/
theorem EndsInk.isAt_after (h : EndsInk taken) (hc : c.IsAt s) (hrest : c.rest = taken ++ rest) :
    (c.after taken rest).IsAt s ∧ c.pos < (c.after taken rest).pos := by
  refine ⟨hc.after hrest fun _ => h.isClear rest, ?_⟩
  have hpos := byteSize_pos h.ne_nil
  show c.pos < c.pos + byteSize taken
  omega

/-- The branch behind a mark goes on from there. -/
theorem Tracks.accept_after (hmark : EndsInk mark) (hc : c.IsAt s)
    (hyes : ∀ rest, (c.after mark rest).IsAt s → c.pos < (c.after mark rest).pos →
      Tracks s (c.after mark rest) yes P)
    (hno : Tracks s c no P) : Tracks s c (do if ← Reader.accept mark then yes else no) P := by
  cases hstrip : mark.isPrefixOf? c.rest with
  | none =>
    have hread : Reader.accept mark c = .ok (false, c) := by rw [Reader.accept, hstrip]
    refine hno.of_eq ?_
    rw [bind_ok hread, if_neg Bool.false_ne_true]
  | some rest =>
    have hread : Reader.accept mark c = .ok (true, c.after mark rest) := by
      rw [Reader.accept, hstrip]
    obtain ⟨hafter, hlt⟩ := hmark.isAt_after hc (List.append_eq_of_isPrefixOf?_eq_some hstrip).symm
    refine .after hread (Nat.le_of_lt hlt) ?_
    rw [if_pos rfl]
    exact hyes rest hafter hlt

/-- **A mark is taken or not**: behind it the cursor has moved, and else nothing has changed. -/
theorem Tracks.accept (hmark : EndsInk mark) (hc : c.IsAt s)
    (hyes : ∀ c', c'.IsAt s → c.pos < c'.pos → Tracks s c' yes P) (hno : Tracks s c no P) :
    Tracks s c (do if ← Reader.accept mark then yes else no) P :=
  .accept_after hmark hc (fun _ => hyes _) hno

/-! ### Runs of characters -/

/-- A run of a class that holds spaces or no blanks at all ends clearly. -/
def IsSound (p : Char → Bool) : Prop := p ' ' = true ∨ ∀ d, p d = true → isBlank d = false

/-- Behind a whole run the cursor is one of the statement again. -/
theorem IsSound.isAt_after {p : Char → Bool} (hp : IsSound p) (hc : c.IsAt s) :
    (c.after (c.rest.takeWhile p) (c.rest.dropWhile p)).IsAt s := by
  refine hc.after List.takeWhile_append_dropWhile.symm fun hne => ?_
  rcases hp with hspace | hink
  · refine .of_head fun hhead => ?_
    have hno := List.head?_dropWhile_not p c.rest
    rw [hhead] at hno
    change p ' ' = false at hno
    rw [hspace] at hno
    exact Bool.false_ne_true hno.symm
  · refine .of_last fun d hd => hink d ?_
    exact List.mem_takeWhile_imp (List.mem_of_getLast? hd)

/-- Taking a piece never moves a cursor to the left. -/
theorem pos_le_pos_after (c : Cursor) (taken rest : List Char) : c.pos ≤ (c.after taken rest).pos :=
  Nat.le_add_right _ _

/-- A run is tracked if runs of its kind break off at places of a statement. -/
theorem tracks_takeWhile {p : Char → Bool} (hp : IsSound p) (hc : c.IsAt s) :
    Tracks s c (takeWhile p) fun _ _ => True :=
  .of_eq_ok rfl (hp.isAt_after hc) (pos_le_pos_after _ _ _) trivial

/-- A run that must not be empty goes on. -/
theorem tracks_takeAtLeast {p : Char → Bool} (hp : IsSound p) {least : Nat} (hleast : 0 < least)
    (hc : c.IsAt s) : Tracks s c (takeAtLeast least p) fun _ c' => c.pos < c'.pos := by
  by_cases hlength : (c.rest.takeWhile p).length < least
  · exact .of_eq_error (if_pos hlength) (show (Stop.expected [] c).IsIn s from hc)
  · have hpos := byteSize_pos (List.length_pos_iff.1 (show 0 < (c.rest.takeWhile p).length by omega))
    refine .of_eq_ok (if_neg hlength) (hp.isAt_after hc) (pos_le_pos_after _ _ _) ?_
    show c.pos < c.pos + byteSize (c.rest.takeWhile p)
    omega

/-- The whole text takes the cursor to the end of the statement. -/
theorem tracks_takeAll (hc : c.IsAt s) : Tracks s c takeAll fun _ c' => c'.rest = [] :=
  .of_eq_ok rfl (hc.after (List.append_nil _).symm fun _ => .nil_right _) (pos_le_pos_after _ _ _) rfl

/-- Blanks break off at a place of the statement. -/
theorem isSound_isBlank : IsSound isBlank := Or.inl (by decide)

/-- So do word characters, none of which is a blank. -/
theorem isSound_isWordChar : IsSound isWordChar :=
  Or.inr fun _ h => Text.isBlank_eq_false_of_isWordChar h

theorem tracks_blanks (hc : c.IsAt s) : Tracks s c blanks fun _ _ => True :=
  (tracks_takeWhile isSound_isBlank hc).bind fun _ _ hc' _ _ => .pure hc' trivial

theorem tracks_someBlanks (hc : c.IsAt s) : Tracks s c someBlanks fun _ _ => True :=
  ((tracks_takeAtLeast isSound_isBlank Nat.one_pos hc).named _).bind
    fun _ _ hc' _ _ => .pure hc' trivial

/-- An identifier takes the cursor on, by one character at least. -/
theorem tracks_identifier (hc : c.IsAt s) : Tracks s c identifier fun _ c' => c.pos < c'.pos :=
  (tracks_takeAtLeast isSound_isWordChar Nat.one_pos hc).named _

/-- So does a keyword. -/
theorem tracks_keyword (word : String) (hc : c.IsAt s) :
    Tracks s c (keyword word) fun _ c' => c.pos < c'.pos := by
  refine Tracks.named _ ?_
  by_cases hword : (!(c.rest.takeWhile isWordChar).isEmpty &&
      Text.sameLetters (c.rest.takeWhile isWordChar) word.toList) = true
  · refine .of_eq_ok (if_pos hword) (isSound_isWordChar.isAt_after hc) (pos_le_pos_after _ _ _) ?_
    rw [Bool.and_eq_true, Bool.not_eq_true', List.isEmpty_eq_false_iff] at hword
    have hpos := byteSize_pos hword.1
    show c.pos < c.pos + byteSize (c.rest.takeWhile isWordChar)
    omega
  · exact .of_eq_error (if_neg hword) (show (Stop.expected [] c).IsIn s from hc)

/-- The place of what is read. -/
theorem Tracks.spanned (hc : c.IsAt s) (hr : Tracks s c r P) :
    Tracks s c (Reader.spanned r) fun v c' => v.span.IsIn s ∧ P v.value c' := by
  refine Tracks.position (hr.bind fun a c' hc' _ ha => Tracks.position (.pure hc' ⟨?_, ha⟩))
  exact Span.isIn_ofRange hc.isPlace hc'.isPlace

/-- Going on behind a text that ends with ink. -/
theorem tracks_moveTo (hc : c.IsAt s) (hrest : c.rest = taken ++ rest) (htaken : EndsInk taken) :
    Tracks s c (moveTo rest) fun _ c' => c.pos < c'.pos := by
  obtain ⟨hafter, hlt⟩ := htaken.isAt_after hc hrest
  rw [← Cursor.moveTo_eq hrest] at hafter hlt
  exact .of_eq_ok rfl hafter (Nat.le_of_lt hlt) hlt

/-- Going on behind a text at the front. -/
theorem tracks_moveTo_drop (hc : c.IsAt s) (htaken : taken <+: c.rest) (hink : EndsInk taken) :
    Tracks s c (moveTo (c.rest.drop taken.length)) fun _ c' => c.pos < c'.pos :=
  tracks_moveTo hc (List.prefix_iff_eq_append.1 htaken).symm hink

/-! ### Strings -/

/-- What is decoded up to the closing quote ends in front of what follows that quote. -/
theorem exists_of_decodeTail? {text content rest : List Char}
    (h : Text.Quoted.decodeTail? text = some (content, rest)) : ∃ raw, text = raw ++ '"' :: rest := by
  fun_induction Text.Quoted.decodeTail? text generalizing content with
  | case1 => simp at h
  | case2 rest' =>
    obtain ⟨-, rfl⟩ := Prod.mk.inj (Option.some.inj h)
    exact ⟨[], rfl⟩
  | case3 c tail ih =>
    obtain ⟨found, hfound, hpair⟩ := Option.map_eq_some_iff.1 h
    obtain ⟨-, rfl⟩ := Prod.mk.inj hpair
    obtain ⟨raw, rfl⟩ := ih hfound
    exact ⟨'\\' :: c :: raw, rfl⟩
  | case4 c tail _ _ ih =>
    obtain ⟨found, hfound, hpair⟩ := Option.map_eq_some_iff.1 h
    obtain ⟨-, rfl⟩ := Prod.mk.inj hpair
    obtain ⟨raw, rfl⟩ := ih hfound
    exact ⟨c :: raw, rfl⟩

/-- Behind a quoted text there is a place further on. -/
theorem isAt_moveTo_quoted {raw : List Char} (hc : c.IsAt s)
    (hrest : c.rest = '"' :: (raw ++ '"' :: rest)) :
    (c.moveTo rest).IsAt s ∧ c.pos < (c.moveTo rest).pos := by
  have hsplit : c.rest = ('"' :: raw ++ ['"']) ++ rest := by rw [hrest]; simp
  have hquote : EndsInk ['"'] := by decide
  rw [Cursor.moveTo_eq hsplit]
  exact (hquote.append_left _).isAt_after hc hsplit

/-- A string without escapes takes the cursor on, behind its closing quote. -/
theorem tracks_rawString (hc : c.IsAt s) : Tracks s c rawString fun _ c' => c.pos < c'.pos := by
  unfold Tracks rawString
  split
  · next rest hrest =>
    split
    · next content behind hbreak =>
      rw [Text.eq_of_breakAt? hbreak, List.append_assoc] at hrest
      obtain ⟨hafter, hlt⟩ := isAt_moveTo_quoted hc hrest
      exact .of_ok ⟨hafter, Nat.le_of_lt hlt, hlt⟩
    · show Tracks s c (Reader.fault unterminatedString c.pos) fun _ c' => c.pos < c'.pos
      exact tracks_fault_here _ hc hrest rfl
  · exact .of_error hc

/-- A string with escapes takes the cursor on, behind its closing quote. -/
theorem tracks_escapedString (hc : c.IsAt s) :
    Tracks s c escapedString fun _ c' => c.pos < c'.pos := by
  unfold Tracks escapedString
  split
  · next rest hrest =>
    split
    · next content behind hdecode =>
      obtain ⟨raw, hraw⟩ := exists_of_decodeTail? hdecode
      rw [hraw] at hrest
      obtain ⟨hafter, hlt⟩ := isAt_moveTo_quoted hc hrest
      exact .of_ok ⟨hafter, Nat.le_of_lt hlt, hlt⟩
    · have hsplit : c.rest = c.rest ++ [] := (List.append_nil _).symm
      have hne : c.rest ≠ [] := by rw [hrest]; exact List.cons_ne_nil _ _
      have hpos := byteSize_pos hne
      rw [Cursor.moveTo_eq hsplit]
      refine .of_error ⟨hc.after hsplit fun _ => .nil_right _, hc.isPlace, Or.inl ?_⟩
      show c.pos < c.pos + byteSize c.rest
      omega
  · exact .of_error hc

/-! ### Known texts -/

/-- **A tracked reader that leaves `rest` stops right behind what is spelled in front of it.** -/
theorem Reads.exists_eq_ok {R : α → Prop} {spelled : List Char}
    (hreads : Reads r (spelled ++ rest) R rest)
    (htracks : ∀ (s : Statement) (c : Cursor), c.IsAt s → Tracks s c r P) (start : Nat) :
    ∃ a, r ⟨start, spelled ++ rest⟩ = .ok (a, ⟨start + byteSize spelled, rest⟩) ∧ R a := by
  obtain ⟨a, stop, hread, ha⟩ := hreads start
  -- the text is a statement of its own, which the reader enters at its first character
  let s : Statement := ⟨spelled ++ rest, start⟩
  have htrack := htracks s s.cursor s.isAt_cursor
  have hplace : Cursor.IsAt s ⟨stop, rest⟩ := (htrack.ok _ hread).1
  have hsum : stop + byteSize rest = start + byteSize (spelled ++ rest) := hplace.pos_le
  rw [Text.byteSize_append] at hsum
  obtain rfl : stop = start + byteSize spelled := by omega
  exact ⟨a, hread, ha⟩

end Reader

/-! ## Whole statements -/

namespace Statement

open Reader

variable {α : Type} {r : Reader α} {source : List Char} {s : Statement} {P : α → Prop}

/-- **A statement that is read by a tracked reader** gives a value with the property or a complaint
that is placed in the source. -/
theorem StandsIn.read (hs : s.StandsIn source) (hr : Tracks s s.cursor r fun a _ => P a) :
    Places source (s.read r) P := by
  have hwhole : Tracks s s.cursor (do
      let value ← r
      Reader.blanks
      if ← Reader.atEnd then return value else Reader.expected "end of statement")
      fun a _ => P a := by
    refine hr.bind fun a c' hc' _ ha => (tracks_blanks hc').bind fun _ c'' hc'' _ _ => ?_
    exact .atEnd (.pure hc'' ha) (tracks_expected _ hc'')
  unfold Statement.read
  dsimp only
  split
  · next value rest hread => exact .of_ok (hwhole.ok (value, rest) hread).2.2
  · next stop hread => exact .of_error (isPlaced_diagnose hs (hwhole.error stop hread))

end Statement

end Flowchart
