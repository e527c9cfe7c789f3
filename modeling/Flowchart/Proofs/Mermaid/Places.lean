import Flowchart.Mermaid.Reading
import Flowchart.Proofs.Source.Tracks

/-!
# Where the Mermaid reader points

The readers of chains and styles are tracked, and the body of a source keeps its offset when the front
matter is cut off. So the reader of a whole source notes places of the source only, and **its
complaints are placed**.
-/

namespace Flowchart.Mermaid

open Text (byteSize isBlank isWordChar trim trimStart)
open Reader

/-- Comments and brackets of this notation are ASCII. -/
theorem isNarrow : conventions.IsNarrow := ⟨by decide, by decide⟩

variable {source : List Char} {s : Statement} {c : Cursor}

/-! ## Labels and shapes -/

/-- The brackets of shapes and labels end with ink. -/
theorem endsInk_brackets :
    ∀ b ∈ brackets, EndsInk b.opening ∧ ∀ m ∈ b.closings, EndsInk m := by
  decide

/-- Any of several marks leads to a place of the statement. -/
theorem tracks_acceptAny {marks : List (List Char)} (hmarks : ∀ m ∈ marks, EndsInk m)
    (hc : c.IsAt s) : Tracks s c (acceptAny marks) fun _ _ => True := by
  induction marks with
  | nil => exact .pure hc trivial
  | cons mark rest ih =>
    obtain ⟨hmark, hrest⟩ := List.forall_mem_cons.1 hmarks
    exact .accept hmark hc (fun c' hc' _ => .pure hc' trivial) (ih hrest)

/-- The earliest mark is one of the marks. -/
theorem eq_of_breakAtEarliest? {marks : List (List Char)} {cs before after : List Char}
    (h : breakAtEarliest? marks cs = some (before, after)) :
    ∃ m ∈ marks, cs = before ++ m ++ after := by
  let Found (best : Option (List Char × List Char)) : Prop :=
    ∀ b ∈ best, ∃ m ∈ marks, cs = b.1 ++ m ++ b.2
  -- what is found on the way stands in front of one of the marks
  have hfound : Found (breakAtEarliest? marks cs) := by
    refine List.foldlRecOn marks _ (fun b hb => absurd hb (by simp)) fun best hbest mark hmark => ?_
    have hnew : Found (Text.breakAt? mark cs) :=
      fun b hb => ⟨mark, hmark, Text.eq_of_breakAt? hb⟩
    split
    · next b found hb =>
      rw [hb] at hnew
      split
      · exact hnew
      · exact hbest
    · exact hnew
    · exact hbest
  exact hfound (before, after) h

/-- A label behind the place where its shape or its bars began. -/
theorem tracks_closedLabel {closings : List (List Char)} (hclosings : ∀ m ∈ closings, EndsInk m)
    (unclosed : Fault) {start : Nat} (hc : c.IsAt s) (hstart : s.IsPlace start)
    (hlt : start < c.pos) : Tracks s c (closedLabel closings unclosed start) fun _ _ => True := by
  unfold closedLabel
  refine .cursor (.ite (fun _ => ?_) fun _ => ?_)
  · refine (tracks_blanks hc).bind fun _ c₁ hc₁ hle₁ _ => ?_
    refine (tracks_rawString hc₁).bind fun raw c₂ hc₂ hle₂ _ => ?_
    refine (tracks_blanks hc₂).bind fun _ c₃ hc₃ hle₃ _ => ?_
    refine (tracks_acceptAny hclosings hc₃).bind fun closed c₄ hc₄ hle₄ _ => ?_
    exact .ite (fun _ => .pure hc₄ trivial) fun _ => tracks_fault _ hc₄ hstart (by omega)
  · split
    · next raw after hbreak =>
      obtain ⟨m, hm, hrest⟩ := eq_of_breakAtEarliest? hbreak
      have hink : EndsInk (raw ++ m) := (hclosings m hm).append_left raw
      exact (tracks_moveTo hc hrest hink).bind fun _ c' hc' _ _ => .pure hc' trivial
    · exact tracks_fault _ hc hstart hlt

/-- A shape leads to a place of the statement. -/
theorem tracks_shape (hc : c.IsAt s) : Tracks s c shape fun _ _ => True := by
  unfold shape
  refine .cursor ?_
  split
  · exact tracks_expected _ hc
  · next b hbracket =>
    unfold bracket? at hbracket
    obtain ⟨hopening, hclosings⟩ := endsInk_brackets b (List.mem_of_find?_eq_some hbracket)
    have hstart := List.find?_some (p := fun b : Bracket => b.opening.isPrefixOf c.rest) hbracket
    obtain ⟨rest, hrest⟩ := List.isPrefixOf_iff_prefix.1 hstart
    -- the opening bracket stands here, so reading it goes on
    have hread : Reader.accept b.opening c = .ok (true, c.after b.opening rest) := by
      rw [Reader.accept, ← hrest, Text.isPrefixOf?_append]
    obtain ⟨hafter, hlt⟩ := hopening.isAt_after hc hrest.symm
    refine .after hread (Nat.le_of_lt hlt) ?_
    exact (tracks_closedLabel hclosings _ hafter hc.isPlace hlt).bind
      fun _ c' hc' _ _ => .pure hc' trivial

/-! ## Chains -/

/-- The places of an endpoint. -/
structure Endpoint.IsIn (s : Statement) (e : Endpoint) : Prop where
  id : e.id.span.IsIn s
  span : e.span.IsIn s

/-- The places of a chain. -/
structure Chain.IsIn (s : Statement) (chain : Chain) : Prop where
  first : chain.first.IsIn s
  rest : ∀ p ∈ chain.rest, p.2.IsIn s

/-- An endpoint has its id within the statement. -/
theorem tracks_endpoint (hc : c.IsAt s) : Tracks s c endpoint fun e _ => e.IsIn s := by
  unfold endpoint
  refine Tracks.bind (P := fun mention _ => mention.span.IsIn s ∧ mention.value.1.span.IsIn s) ?_
    fun mention c' hc' _ h => .pure hc' ⟨h.2, h.1⟩
  refine Tracks.spanned
    (P := fun (found : Spanned (List Char) × Option (NodeType × String)) _ => found.1.span.IsIn s) hc ?_
  refine (((tracks_identifier hc).named _).spanned hc).bind fun id c₁ hc₁ _ hid => .cursor ?_
  dsimp only
  split
  · exact ((tracks_shape hc₁).map (Q := fun _ _ => True) fun _ _ _ _ => trivial).bind
      fun shape? c₂ hc₂ _ _ => .pure hc₂ hid.1
  · exact (Tracks.pure (P := fun _ _ => True) hc₁ trivial).bind
      fun shape? c₂ hc₂ _ _ => .pure hc₂ hid.1

/-- A label between pipes leads to a place of the statement. -/
theorem tracks_pipeLabel? (hc : c.IsAt s) : Tracks s c pipeLabel? fun _ _ => True := by
  unfold pipeLabel?
  refine .position (.accept (by decide) hc (fun c' hc' hlt => ?_) (.pure hc trivial))
  refine Tracks.map ?_ fun _ _ _ h => h
  exact tracks_closedLabel (by decide) _ hc' hc.isPlace hlt

/-- So does a link. -/
theorem tracks_link (hc : c.IsAt s) : Tracks s c link fun _ _ => True := by
  unfold link
  have harrow : IsSound isArrowChar := Or.inr fun d hd => by
    simp only [isArrowChar, Bool.or_eq_true, decide_eq_true_eq] at hd
    rcases hd with ((rfl | rfl) | rfl) | rfl <;> decide
  refine .position (((tracks_takeAtLeast harrow Nat.two_pos hc).named _).bind ?_)
  intro arrow c₁ hc₁ _ hlt
  split
  · exact tracks_fault _ hc₁ hc.isPlace hlt
  · refine (tracks_blanks hc₁).bind fun _ c₂ hc₂ _ _ => ?_
    exact (tracks_pipeLabel? hc₂).bind fun _ c₃ hc₃ _ _ => .pure hc₃ trivial

/-- What links lead to has its ids within the statement. -/
theorem tracks_links (fuel : Nat) (hc : c.IsAt s) :
    Tracks s c (links fuel) fun rest _ => ∀ p ∈ rest, p.2.IsIn s := by
  induction fuel generalizing c with
  | zero => exact .pure hc (List.forall_mem_nil _)
  | succ fuel ih =>
    unfold links
    refine .cursor (.ite (fun _ => .pure hc (List.forall_mem_nil _)) fun _ => ?_)
    refine (tracks_blanks hc).bind fun _ c₁ hc₁ _ _ => ?_
    refine (tracks_link hc₁).bind fun link c₂ hc₂ _ _ => ?_
    refine (tracks_blanks hc₂).bind fun _ c₃ hc₃ _ _ => ?_
    refine (tracks_endpoint hc₃).bind fun target c₄ hc₄ _ htarget => ?_
    exact (ih hc₄).bind fun rest c₅ hc₅ _ hrest => .pure hc₅ (List.forall_mem_cons.2 ⟨htarget, hrest⟩)

/-- **A chain points to places of its statement.** -/
theorem tracks_chain (hc : c.IsAt s) : Tracks s c chain fun chain _ => chain.IsIn s := by
  unfold chain
  refine (tracks_endpoint hc).bind fun first c₁ hc₁ _ hfirst => .cursor ?_
  exact (tracks_links _ hc₁).bind fun rest c₂ hc₂ _ hrest => .pure hc₂ ⟨hfirst, hrest⟩

/-! ## Styles and headers -/

/-- A style names an id within the statement. -/
theorem tracks_style (hc : c.IsAt s) : Tracks s c style fun found _ => found.1.span.IsIn s := by
  unfold style
  refine (tracks_keyword _ hc).bind fun _ c₁ hc₁ _ _ => ?_
  refine (tracks_someBlanks hc₁).bind fun _ c₂ hc₂ _ _ => ?_
  refine ((tracks_identifier hc₂).spanned hc₂).bind fun id c₃ hc₃ _ hid => ?_
  refine (tracks_someBlanks hc₃).bind fun _ c₄ hc₄ _ _ => .position ?_
  refine (tracks_takeAll hc₄).bind fun properties c₅ hc₅ hle hend => ?_
  split
  · exact .pure hc₅ hid.1
  · exact tracks_fault_atEnd _ hc₅ hc₄.isPlace hle hend

/-- A header has its direction within the statement. -/
theorem tracks_header (hc : c.IsAt s) :
    Tracks s c header fun code? _ => ∀ code ∈ code?, code.span.IsIn s := by
  unfold header
  refine (Tracks.or (tracks_keyword _ hc) (tracks_keyword _ hc)).bind fun _ c₁ hc₁ _ _ => ?_
  refine .optional hc₁ ((tracks_someBlanks hc₁).bind fun _ c₂ hc₂ _ _ => ?_)
  exact ((tracks_identifier hc₂).spanned hc₂).mono fun _ _ _ h => h.1

/-! ## Statements -/

section

variable {d : Draft}

/-- Declaring a placed endpoint, with its shape if it has one, keeps a draft placed. -/
theorem isPlaced_declareShaped (hd : d.IsPlaced source) {e : Endpoint} (he : e.IsIn s)
    (hs : s.StandsIn source) : (declareShaped d e).IsPlaced source := by
  unfold declareShaped
  split
  · exact hd.declare _ (he.span.isWithin hs)
  · exact hd

/-- Connecting placed endpoints one after the other keeps a draft placed. -/
theorem isPlaced_connectAll (hd : d.IsPlaced source) {previous : Endpoint}
    (hprevious : previous.IsIn s) {rest : List (Link × Endpoint)} (hrest : ∀ p ∈ rest, p.2.IsIn s)
    (hs : s.StandsIn source) : (connectAll d previous rest).IsPlaced source := by
  induction rest generalizing d previous with
  | nil => exact hd
  | cons next rest ih =>
    obtain ⟨htarget, hrest⟩ := List.forall_mem_cons.1 hrest
    refine ih (Draft.IsPlaced.connect ?_ _ ?_ ?_) htarget hrest
    · exact isPlaced_declareShaped hd htarget hs
    · exact hprevious.id.isWithin hs
    · exact htarget.id.isWithin hs

/-- A whole chain keeps a draft placed. -/
theorem isPlaced_addChain (hd : d.IsPlaced source) {chain : Chain} (hchain : chain.IsIn s)
    (hs : s.StandsIn source) : (addChain d chain).IsPlaced source := by
  unfold addChain
  dsimp only
  split
  · exact hd.declare _ (hchain.first.span.isWithin hs)
  · exact isPlaced_connectAll (isPlaced_declareShaped hd hchain.first hs) hchain.first hchain.rest hs

/-- **One statement keeps the draft placed.** -/
theorem isPlaced_readStatement (hd : d.IsPlaced source) (hs : s.StandsIn source) :
    (readStatement d s).IsPlaced source := by
  have hchain := hs.read (tracks_chain s.isAt_cursor)
  have hstyle := hs.read (tracks_style s.isAt_cursor)
  unfold readStatement
  dsimp only
  split
  · exact hd.report (Diagnostic.isPlaced_of_label hs.isWithin_span rfl rfl rfl rfl)
  · split
    · split
      · next id attributes hread => exact hd.style ((hstyle.ok _ hread).isWithin hs) attributes
      -- the complaint about the style counts, unless the statement is a chain
      · next problem hread =>
        split
        · next found hread => exact isPlaced_addChain hd (hchain.ok found hread) hs
        · exact hd.report (hstyle.error problem hread)
    · split
      · next found hread => exact isPlaced_addChain hd (hchain.ok found hread) hs
      · next problem hread => exact hd.report (hchain.error problem hread)

/-- The header is read into a placed draft or a placed diagnostic. -/
theorem places_readHeader (hs : s.StandsIn source) :
    Places source (readHeader s) (Draft.IsPlaced source) := by
  have hcode := hs.read (tracks_header s.isAt_cursor)
  unfold readHeader
  split
  · exact Places.of_label hs.isWithin_span rfl rfl rfl rfl
  · exact .of_ok (Draft.isPlaced_empty source)
  · next code hread =>
    split
    · exact .of_ok ((Draft.isPlaced_empty source).setDirection _)
    · exact Places.of_label ((hcode.ok _ hread code rfl).isWithin hs) rfl rfl rfl rfl

/-- **Statements are read into a placed draft.** -/
theorem places_readStatements (title? : Option String) {statements : List Statement}
    (hs : ∀ s ∈ statements, s.StandsIn source) :
    Places source (readStatements source title? statements) (Draft.IsPlaced source) := by
  unfold readStatements
  split
  · have hend := IsBoundary.byteSize source
    exact Places.of_label ⟨hend, hend⟩ rfl rfl rfl rfl
  · next first rest =>
    obtain ⟨hfirst, hrest⟩ := List.forall_mem_cons.1 hs
    have hheader := places_readHeader hfirst
    split
    · next problem hread => exact .of_error (hheader.error problem hread)
    · next start hread =>
      have hstart : Draft.IsPlaced source { start with title := title? } :=
        { hheader.ok start hread with }
      refine .of_ok (List.foldlRecOn rest _ hstart fun d hd s hs => ?_)
      exact isPlaced_readStatement hd (hrest s hs)

end

/-! ## Sources -/

/-- The body is what follows the line that closes the front matter, at its offset. -/
theorem eq_of_closeFrontMatter? {title? title?' : Option String} {offset : Nat}
    {lines : List (List Char)} {body : Body}
    (h : closeFrontMatter? title? offset lines = some (title?', body)) :
    ∃ before, lines.flatten = before ++ body.text ∧ body.offset = offset + byteSize before := by
  induction lines generalizing title? offset with
  | nil => exact absurd h (by simp [closeFrontMatter?])
  | cons line rest ih =>
    -- a line that does not close the front matter stands before the body
    have hnext : ∀ title?, closeFrontMatter? title? (offset + byteSize line) rest =
        some (title?', body) → ∃ before, (line :: rest).flatten = before ++ body.text ∧
          body.offset = offset + byteSize before := by
      intro title? h
      obtain ⟨before, hflatten, hoffset⟩ := ih h
      refine ⟨line ++ before, ?_, ?_⟩
      · rw [List.flatten_cons, hflatten, List.append_assoc]
      · rw [hoffset, Text.byteSize_append, Nat.add_assoc]
    rw [closeFrontMatter?] at h
    split at h
    · obtain ⟨-, rfl⟩ := Prod.mk.inj (Option.some.inj h)
      exact ⟨line, List.flatten_cons, rfl⟩
    · split at h
      · exact hnext _ h
      · exact hnext _ h

/-- A first line that opens front matter starts with three dashes. -/
theorem eq_of_opens {first : List Char} {rest : List (List Char)}
    (hlines : Text.lines (trimStart source) = first :: rest) (hopens : trim first = "---".toList) :
    ∃ after, trimStart source = "---".toList ++ after := by
  have htrimmed : trimStart source = first ++ rest.flatten := by
    rw [← List.flatten_cons, ← hlines, Text.flatten_lines]
  have hfirst : trimStart first = first := by
    refine Text.trimStart_eq_self fun d hd => Text.head?_trimStart source d ?_
    rw [htrimmed, List.head?_append, Option.mem_def.1 hd]
    rfl
  obtain ⟨blank, -, hblank⟩ := Text.exists_trimEnd_append first
  rw [trim, hfirst] at hopens
  rw [hopens] at hblank
  exact ⟨blank ++ rest.flatten, by rw [htrimmed, ← hblank, List.append_assoc]⟩

/-- **The body stands in the source at its offset**, and front matter that is not closed is reported
where it was opened. -/
theorem places_frontMatter (source : List Char) :
    Places source (frontMatter source) fun found =>
      ∃ before, source = before ++ found.2.text ∧ found.2.offset = byteSize before := by
  have hsource : source = source.takeWhile isBlank ++ trimStart source :=
    List.takeWhile_append_dropWhile.symm
  have hopenedAt : byteSize source - byteSize (trimStart source) =
      byteSize (source.takeWhile isBlank) := by
    have hsize := congrArg byteSize hsource
    rw [Text.byteSize_append] at hsize
    omega
  unfold frontMatter
  dsimp only
  rw [hopenedAt]
  split
  · exact .of_ok ⟨[], rfl, rfl⟩
  · next first rest hlines =>
    have htrimmed : trimStart source = first ++ rest.flatten := by
      rw [← List.flatten_cons, ← hlines, Text.flatten_lines]
    split
    · next hopens =>
      split
      · next found hclose =>
        obtain ⟨before, hflatten, hoffset⟩ := eq_of_closeFrontMatter? hclose
        refine .of_ok ⟨source.takeWhile isBlank ++ first ++ before, ?_, ?_⟩
        · rw [List.append_assoc, List.append_assoc, ← hflatten, ← htrimmed]
          exact hsource
        · rw [hoffset, Text.byteSize_append, Text.byteSize_append]
      · obtain ⟨after, hafter⟩ := eq_of_opens hlines hopens
        rw [hafter] at hsource
        have hstart : IsBoundary source (byteSize (source.takeWhile isBlank)) := ⟨_, _, hsource, rfl⟩
        have hstop : IsBoundary source (byteSize (source.takeWhile isBlank) + 3) :=
          ⟨source.takeWhile isBlank ++ "---".toList, after, by rw [List.append_assoc]; exact hsource,
            Text.byteSize_append _ _⟩
        exact Places.of_label (Span.isWithin_ofRange hstart hstop) rfl rfl rfl rfl
    · exact .of_ok ⟨[], rfl, rfl⟩

/-- **The draft of a source is placed, and so is the complaint where there is none.** -/
theorem places_draft (source : List Char) :
    Places source (draft source) (Draft.IsPlaced source) := by
  refine (places_frontMatter source).bind fun ⟨title?, body⟩ ⟨before, hsource, hoffset⟩ => ?_
  refine (Conventions.places_hideComments isNarrow hsource hoffset).bind fun visible hvisible => ?_
  refine (Conventions.places_statements isNarrow hvisible).bind fun statements hstatements => ?_
  exact places_readStatements title? hstatements

end Flowchart.Mermaid
