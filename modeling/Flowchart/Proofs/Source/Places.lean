import Flowchart.Proofs.Source.Steps
import Flowchart.Source.Statement
import Mathlib.Data.List.Basic

/-!
# Places between the characters of a source

Offsets are counted in bytes, so an offset may fall into the middle of a character. A *boundary* of a
source is an offset that does not. The module says what it means for a diagnostic to point into its
source, in terms of the bytes of the source, and brings it down to boundaries:

* a reader has to show that its diagnostics are *placed*, that is, that their labels run from
  boundary to boundary;
* **a placed diagnostic points into the source once its line is filled in**;
* a draft whose places are boundaries is refused with diagnostics that point into the source.
-/

namespace Flowchart

open Text (byteSize)

/-! ## Values and errors -/

/-- The result satisfies `P`, or the error satisfies `E`. -/
structure Yields {ε α : Type} (result : Except ε α) (P : α → Prop) (E : ε → Prop) : Prop where
  ok : ∀ a, result = .ok a → P a
  error : ∀ e, result = .error e → E e

namespace Yields

variable {ε α β : Type} {result : Except ε α} {P P' : α → Prop} {Q : β → Prop} {E : ε → Prop}

/-- A value that has the property is a good end. -/
theorem of_ok {a : α} (ha : P a) : Yields (.ok a) P E where
  ok b h := by
    obtain rfl := Except.ok.inj h
    exact ha
  error e h := absurd h (by simp)

/-- So is an error that has its own. -/
theorem of_error {e : ε} (he : E e) : Yields (.error e) P E where
  ok a h := absurd h (by simp)
  error e' h := by
    obtain rfl := Except.error.inj h
    exact he

/-- A good end stays one if less is asked of the value. -/
theorem mono (h : Yields result P E) (hP : ∀ a, P a → P' a) : Yields result P' E :=
  ⟨fun a ha => hP a (h.ok a ha), h.error⟩

/-- One stage after the other. -/
theorem bind {second : α → Except ε β} (h : Yields result P E)
    (hsecond : ∀ a, P a → Yields (second a) Q E) : Yields (result >>= second) Q E := by
  cases hresult : result with
  | error e => exact of_error (h.error e hresult)
  | ok a => exact hsecond a (h.ok a hresult)

end Yields

/-! ## Boundaries -/

/-- No character of the source is cut apart at this offset. -/
def IsBoundary (source : List Char) (offset : Nat) : Prop :=
  ∃ before after, source = before ++ after ∧ byteSize before = offset

namespace IsBoundary

variable {source text : List Char} {offset : Nat}

/-- A text begins at a boundary. -/
theorem zero (source : List Char) : IsBoundary source 0 := ⟨[], source, rfl, rfl⟩

/-- A text ends at a boundary. -/
theorem byteSize (source : List Char) : IsBoundary source (byteSize source) :=
  ⟨source, [], (List.append_nil source).symm, rfl⟩

/-- A boundary is moved by what is put in front. -/
theorem append_left (h : IsBoundary text offset) (before : List Char) :
    IsBoundary (before ++ text) (Text.byteSize before + offset) := by
  obtain ⟨front, back, rfl, rfl⟩ := h
  exact ⟨before ++ front, back, (List.append_assoc _ _ _).symm, Text.byteSize_append _ _⟩

/-- One character in front moves a boundary by the size of the character. -/
theorem cons (h : IsBoundary text offset) (c : Char) :
    IsBoundary (c :: text) (c.utf8Size + offset) := by
  have hsingle := h.append_left [c]
  rwa [Text.byteSize_cons, Text.byteSize_nil, Nat.add_zero] at hsingle

/-- No boundary lies behind the end of its text. -/
theorem le_byteSize (h : IsBoundary source offset) : offset ≤ Text.byteSize source := by
  obtain ⟨before, after, rfl, rfl⟩ := h
  rw [Text.byteSize_append]
  exact Nat.le_add_right _ _

end IsBoundary

/-- The part stands in the text from this offset on. -/
def OccursAt (text part : List Char) (offset : Nat) : Prop :=
  ∃ before after, text = before ++ (part ++ after) ∧ byteSize before = offset

/-! ## Bytes -/

/-- The bytes of a source. -/
def sourceBytes (source : String) : List UInt8 := source.toByteArray.data.toList

/-- The bytes of a source are those of its characters, one after the other. -/
theorem sourceBytes_eq (source : String) :
    sourceBytes source = source.toList.flatMap String.utf8EncodeChar := by
  rw [sourceBytes, ← String.ofList_toList (s := source), String.toByteArray_ofList,
    String.ofList_toList, List.utf8Encode, List.data_toByteArray]

/-- **A list of characters has as many bytes as it is long in bytes.** -/
theorem length_flatMap_utf8EncodeChar (cs : List Char) :
    (cs.flatMap String.utf8EncodeChar).length = byteSize cs := by
  induction cs with
  | nil => rfl
  | cons c cs ih =>
    rw [List.flatMap_cons, List.length_append, ih, String.length_utf8EncodeChar, Text.byteSize_cons]

/-- The size of a source does not depend on whether it is a string or a list of characters. -/
theorem byteSize_toList (source : String) : byteSize source.toList = source.utf8ByteSize := by
  rw [← length_flatMap_utf8EncodeChar, ← sourceBytes_eq, sourceBytes, Array.length_toList]
  rfl

/-- Boundaries are the valid positions of a string. -/
theorem IsBoundary.isValid {source : String} {offset : Nat} (h : IsBoundary source.toList offset) :
    String.Pos.Raw.IsValid source ⟨offset⟩ := by
  obtain ⟨before, after, heq, rfl⟩ := h
  rw [String.Pos.Raw.isValid_iff_exists_append]
  refine ⟨String.ofList before, String.ofList after, ?_, ?_⟩
  · rw [← String.ofList_append, ← heq, String.ofList_toList]
  · rw [String.rawEndPos, ← byteSize_toList, String.toList_ofList]

/-- How many of the bytes in front of an offset are line feeds. -/
def newlineBytesBefore (source : String) (offset : Nat) : Nat :=
  ((sourceBytes source).take offset).count 10

/-- A byte is a line feed only if its number is that of one. -/
theorem uint8_ofNat_ne_ten {n : Nat} (hne : n ≠ 10) (hlt : n < 256) : UInt8.ofNat n ≠ 10 := by
  intro heq
  have hval := congrArg UInt8.toNat heq
  rw [UInt8.toNat_ofNat', Nat.mod_eq_of_lt hlt] at hval
  exact hne hval

/-- **Only a line feed is encoded with the byte of a line feed**, and it is that byte. -/
theorem count_utf8EncodeChar (c : Char) :
    (String.utf8EncodeChar c).count 10 = if c = '\n' then 1 else 0 := by
  by_cases hc : c = '\n'
  · rw [if_pos hc, hc]
    rfl
  · have hval : c.val.toNat ≠ 10 := fun h => hc (Char.ext (UInt32.toNat_inj.1 h))
    rw [if_neg hc, List.count_eq_zero]
    unfold String.utf8EncodeChar
    dsimp only
    generalize c.val.toNat = v at hval
    -- the bytes of a longer encoding all have their first bit set
    intro hmem
    split_ifs at hmem <;> simp only [List.mem_cons, List.not_mem_nil, or_false] at hmem
    · exact uint8_ofNat_ne_ten hval (by omega) hmem.symm
    · rcases hmem with h | h <;> exact uint8_ofNat_ne_ten (by omega) (by omega) h.symm
    · rcases hmem with h | h | h <;> exact uint8_ofNat_ne_ten (by omega) (by omega) h.symm
    · rcases hmem with h | h | h | h <;> exact uint8_ofNat_ne_ten (by omega) (by omega) h.symm

/-- **Only line feeds have the byte of a line feed**, so bytes and characters count the same lines. -/
theorem count_flatMap_utf8EncodeChar (cs : List Char) :
    (cs.flatMap String.utf8EncodeChar).count 10 = cs.count '\n' := by
  induction cs with
  | nil => rfl
  | cons c cs ih =>
    rw [List.flatMap_cons, List.count_append, ih, count_utf8EncodeChar, List.count_cons, Nat.add_comm]
    simp only [beq_iff_eq]

/-- The line feeds in front of a piece are those of what stands in front of it. -/
theorem lineFeedsBefore_append (before after : List Char) :
    lineFeedsBefore (byteSize before) (before ++ after) = before.count '\n' := by
  induction before with
  | nil =>
    cases after with
    | nil => rfl
    | cons c cs => rfl
  | cons c cs ih =>
    obtain ⟨n, hn⟩ : ∃ n, c.utf8Size + byteSize cs = n + 1 := by
      have hpos := c.utf8Size_pos
      exact ⟨c.utf8Size + byteSize cs - 1, by omega⟩
    rw [List.cons_append, Text.byteSize_cons, hn, lineFeedsBefore, Nat.succ_eq_add_one, ← hn,
      Nat.add_sub_cancel_left, ih, List.count_cons, Nat.add_comm]
    simp only [beq_iff_eq]

/-- **The line of a boundary** is one more than the number of line feed bytes in front of it. -/
theorem IsBoundary.lineNumber_eq {source : String} {offset : Nat}
    (h : IsBoundary source.toList offset) :
    lineNumber source.toList offset = newlineBytesBefore source offset + 1 := by
  obtain ⟨before, after, heq, rfl⟩ := h
  rw [lineNumber, newlineBytesBefore, sourceBytes_eq, heq, lineFeedsBefore_append,
    List.flatMap_append, List.take_left' (length_flatMap_utf8EncodeChar before),
    count_flatMap_utf8EncodeChar]

/-! ## Diagnostics -/

/-- Both ends of the span are boundaries. -/
structure Span.IsWithin (source : List Char) (span : Span) : Prop where
  start : IsBoundary source span.start
  stop : IsBoundary source span.stop

/-- The span lies in the source and cuts no character apart. -/
structure Span.PointsInto (source : String) (span : Span) : Prop where
  start_le_stop : span.start ≤ span.stop
  stop_le_size : span.stop ≤ source.utf8ByteSize
  start_isValid : String.Pos.Raw.IsValid source ⟨span.start⟩
  stop_isValid : String.Pos.Raw.IsValid source ⟨span.stop⟩

/-- A span within a source points into it. -/
theorem Span.IsWithin.pointsInto {source : String} {span : Span}
    (h : span.IsWithin source.toList) : span.PointsInto source where
  start_le_stop := span.start_le_stop
  stop_le_size := by
    rw [← byteSize_toList]
    exact h.stop.le_byteSize
  start_isValid := h.start.isValid
  stop_isValid := h.stop.isValid

/-- Two boundaries bound a span within the source. -/
theorem Span.isWithin_ofRange {source : List Char} {start stop : Nat}
    (hstart : IsBoundary source start) (hstop : IsBoundary source stop) :
    (Span.ofRange start stop).IsWithin source := by
  refine ⟨hstart, ?_⟩
  show IsBoundary source (max stop start)
  rcases Nat.le_total start stop with h | h
  · rwa [Nat.max_eq_left h]
  · rwa [Nat.max_eq_right h]

/-- The span over two spans of a source lies within it. -/
theorem Span.IsWithin.union {source : List Char} {a b : Span} (ha : a.IsWithin source)
    (hb : b.IsWithin source) : (a.union b).IsWithin source := by
  refine Span.isWithin_ofRange ?_ ?_
  · rcases Nat.le_total a.start b.start with h | h
    · rw [Nat.min_eq_left h]; exact ha.start
    · rw [Nat.min_eq_right h]; exact hb.start
  · rcases Nat.le_total a.stop b.stop with h | h
    · rw [Nat.max_eq_right h]; exact hb.stop
    · rw [Nat.max_eq_left h]; exact ha.stop

namespace Diagnostic

/-- **The diagnostic points into the source**: it is an error with a code, its labels lie in the
source and cut no character apart, and it has the line on which its first primary label starts. -/
structure PointsInto (source : String) (d : Diagnostic) : Prop where
  severity_eq : d.severity = .error
  code_isSome : d.code.isSome = true
  labels : ∀ l ∈ d.labels, l.span.PointsInto source
  line : ∃ l ∈ d.labels.find? (·.role = .primary),
    d.line = some (newlineBytesBefore source l.span.start + 1)

/-- The diagnostic will point into the source once its line is filled in. -/
structure IsPlaced (source : List Char) (d : Diagnostic) : Prop where
  severity_eq : d.severity = .error
  code_isSome : d.code.isSome = true
  labels : ∀ l ∈ d.labels, l.span.IsWithin source
  primary : ∃ l ∈ d.labels, l.role = .primary
  line_eq : d.line = none

section

variable {source : List Char} {d : Diagnostic} {span : Span} {message : String}

/-- A diagnostic whose first label is primary. -/
theorem isPlaced_of_labels {others : List Label} (hspan : span.IsWithin source)
    (hothers : ∀ l ∈ others, l.span.IsWithin source)
    (hlabels : d.labels = .primary span message :: others)
    (hseverity : d.severity = .error) (hcode : d.code.isSome = true) (hline : d.line = none) :
    d.IsPlaced source where
  severity_eq := hseverity
  code_isSome := hcode
  labels := by
    rw [hlabels]
    exact List.forall_mem_cons.2 ⟨hspan, hothers⟩
  primary := by
    rw [hlabels]
    exact ⟨_, List.mem_cons_self, rfl⟩
  line_eq := hline

/-- A diagnostic with one label. -/
theorem isPlaced_of_label (hspan : span.IsWithin source)
    (hlabels : d.labels = [.primary span message]) (hseverity : d.severity = .error)
    (hcode : d.code.isSome = true) (hline : d.line = none) : d.IsPlaced source :=
  isPlaced_of_labels hspan (List.forall_mem_nil _) hlabels hseverity hcode hline

end

/-- **Filling in the line of a placed diagnostic makes it point into the source.** -/
theorem IsPlaced.pointsInto_locate {source : String} {d : Diagnostic}
    (h : d.IsPlaced source.toList) : (d.locate source.toList).PointsInto source := by
  obtain ⟨l, hl, hrole⟩ := h.primary
  obtain ⟨first, hfirst⟩ := Option.isSome_iff_exists.1
    (List.find?_isSome.2 ⟨l, hl, decide_eq_true hrole⟩ :
      (d.labels.find? fun l => l.role = .primary).isSome)
  have hline : d.locate source.toList =
      { d with line := some (newlineBytesBefore source first.span.start + 1) } := by
    have hstart := (h.labels first (List.mem_of_find?_eq_some hfirst)).start
    rw [locate, h.line_eq]
    simp only [primarySpan?, hfirst, Option.map_some, hstart.lineNumber_eq]
  rw [hline]
  exact ⟨h.severity_eq, h.code_isSome, fun l hl => (h.labels l hl).pointsInto, first, hfirst, rfl⟩

end Diagnostic

/-- A stage of a reader gives a value with the property `P`, or a complaint that is placed. -/
abbrev Places {α : Type} (source : List Char) (result : Except Diagnostic α) (P : α → Prop) : Prop :=
  Yields result P (Diagnostic.IsPlaced source)

/-- A complaint with one label. -/
theorem Places.of_label {α : Type} {source : List Char} {P : α → Prop} {d : Diagnostic} {span : Span}
    {message : String} (hspan : span.IsWithin source) (hlabels : d.labels = [.primary span message])
    (hseverity : d.severity = .error) (hcode : d.code.isSome = true) (hline : d.line = none) :
    Places source (.error d : Except Diagnostic α) P :=
  .of_error (Diagnostic.isPlaced_of_label hspan hlabels hseverity hcode hline)

/-- A single placed diagnostic points into the source. -/
theorem ParseError.pointsInto_single {source : String} {d : Diagnostic}
    (h : d.IsPlaced source.toList) :
    ∀ problem ∈ (ParseError.single source.toList d).diagnostics, problem.PointsInto source :=
  List.forall_mem_singleton.2 h.pointsInto_locate

/-! ## Drafts -/

namespace Draft

variable {source : List Char} {d : Draft}

/-- Every place that the draft has noted lies in the source. -/
structure IsPlaced (source : List Char) (d : Draft) : Prop where
  nodes : ∀ p ∈ d.nodes, p.2.IsWithin source
  edges : ∀ e ∈ d.edges, e.sourceSpan.IsWithin source ∧ e.targetSpan.IsWithin source
  styles : ∀ s ∈ d.styles, s.id.span.IsWithin source
  problems : ∀ p ∈ d.problems, p.IsPlaced source

theorem isPlaced_empty (source : List Char) : IsPlaced source {} where
  nodes := List.forall_mem_nil _
  edges := List.forall_mem_nil _
  styles := List.forall_mem_nil _
  problems := List.forall_mem_nil _

namespace IsPlaced

/-- A placed problem may be added to a draft. -/
theorem report (h : d.IsPlaced source) {problem : Diagnostic} (hproblem : problem.IsPlaced source) :
    (d.report problem).IsPlaced source :=
  { h with problems := List.forall_mem_append.2 ⟨h.problems, List.forall_mem_singleton.2 hproblem⟩ }

/-- Declaring a node notes one place more, in its declaration or in the complaint about it. -/
theorem declare (h : d.IsPlaced source) (n : Node) {span : Span} (hspan : span.IsWithin source) :
    (d.declare n span).IsPlaced source := by
  unfold Draft.declare
  split
  · exact h.report (Diagnostic.isPlaced_of_label hspan rfl rfl rfl rfl)
  · split
    · next declared first hfound =>
      have hfirst : first.IsWithin source := h.nodes _ (List.mem_of_find?_eq_some hfound)
      exact h.report (Diagnostic.isPlaced_of_labels hspan (List.forall_mem_singleton.2 hfirst) rfl rfl
        rfl rfl)
    · exact { h with
        nodes := List.forall_mem_append.2 ⟨h.nodes, List.forall_mem_singleton.2 hspan⟩ }

/-- An edge may be added between placed ends. -/
theorem connect (h : d.IsPlaced source) (e : Edge) {sourceSpan targetSpan : Span}
    (hsource : sourceSpan.IsWithin source) (htarget : targetSpan.IsWithin source) :
    (d.connect e sourceSpan targetSpan).IsPlaced source :=
  { h with edges :=
      List.forall_mem_append.2 ⟨h.edges, List.forall_mem_singleton.2 ⟨hsource, htarget⟩⟩ }

/-- A style may be added for a placed id. -/
theorem style (h : d.IsPlaced source) {id : Spanned String} (hid : id.span.IsWithin source)
    (attributes : List (String × String)) : (d.style id attributes).IsPlaced source :=
  { h with styles := List.forall_mem_append.2 ⟨h.styles, List.forall_mem_singleton.2 hid⟩ }

/-- A title has no place in the source that would count. -/
theorem setTitle (h : d.IsPlaced source) (title : String) : (d.setTitle title).IsPlaced source :=
  { h with }

/-- Neither has a direction. -/
theorem setDirection (h : d.IsPlaced source) (direction : Direction) :
    (d.setDirection direction).IsPlaced source :=
  { h with }

/-- What is undeclared is reported where it is used. -/
theorem undeclared (h : d.IsPlaced source) :
    ∀ p ∈ d.undeclaredEnds ++ d.undeclaredStyles, p.IsPlaced source := by
  have hplaced : ∀ (id : String) {span : Span}, span.IsWithin source →
      (Draft.undeclared id span).IsPlaced source :=
    fun id span hspan => Diagnostic.isPlaced_of_label hspan rfl rfl rfl rfl
  refine List.forall_mem_append.2 ⟨?_, ?_⟩
  · refine List.forall_mem_flatMap.2 fun e he => List.forall_mem_map.2 fun p hp => hplaced _ ?_
    obtain ⟨hsource, htarget⟩ := h.edges e he
    have hp := (List.mem_filter.1 hp).1
    simp only [List.mem_cons, List.not_mem_nil, or_false] at hp
    rcases hp with rfl | rfl
    · exact hsource
    · exact htarget
  · exact List.forall_mem_map.2 fun s hs => hplaced _ (h.styles s (List.mem_filter.1 hs).1)

end IsPlaced

/-- **A draft whose places lie in the source is refused with diagnostics that point into it.** -/
theorem IsPlaced.pointsInto_of_resolve {source : String} (h : d.IsPlaced source.toList)
    {e : ParseError} (herror : d.resolve source.toList = .error e) :
    ∀ problem ∈ e.diagnostics, problem.PointsInto source := by
  unfold resolve at herror
  split at herror
  · exact absurd herror (by simp)
  · obtain rfl := Except.error.inj herror
    refine List.forall_mem_map.2 fun p hp => Diagnostic.IsPlaced.pointsInto_locate ?_
    rw [List.append_assoc] at hp
    rcases List.mem_append.1 hp with hp | hp
    · exact h.problems p hp
    · exact h.undeclared p hp

end Draft

end Flowchart
