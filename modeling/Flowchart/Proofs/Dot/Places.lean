import Flowchart.Dot.Reading
import Flowchart.Proofs.Source.Tracks

/-!
# Where the DOT reader points

The readers of headers, attribute lists and chains are tracked. The body of a graph is cut again, out
of the text between its braces; a brace is no blank, so the body stands in the source as its graph
does. **The draft of a source is placed, and so are the complaints.**
-/

namespace Flowchart.Dot

open Text (byteSize isBlank isWordChar sameLetters)
open Reader

/-- Comments and separators of this notation are ASCII. -/
theorem isNarrow : conventions.IsNarrow := ⟨by decide, by decide⟩

variable {source : List Char} {s : Statement} {c : Cursor}

/-! ## Ids and attributes -/

/-- The characters of an id are no blanks. -/
theorem isSound_idChar : IsSound fun e => isWordChar e || e = '.' := Or.inr fun e he => by
  rw [Bool.or_eq_true, decide_eq_true_eq] at he
  rcases he with he | rfl
  · exact Text.isBlank_eq_false_of_isWordChar he
  · decide

/-- An id leads to a place of the statement. -/
theorem tracks_id (hc : c.IsAt s) : Tracks s c id fun _ _ => True := by
  unfold id
  refine .lookingAt (fun _ => ?_) (.lookingAt (fun hstart => .position ?_) ?_)
  · exact (tracks_escapedString hc).bind fun _ c' hc' _ _ => .pure hc' trivial
  · obtain ⟨rest, hrest⟩ := List.isPrefixOf_iff_prefix.1 hstart
    exact tracks_fault_here _ hc hrest.symm rfl
  · exact ((tracks_takeAtLeast isSound_idChar Nat.one_pos hc).named _).bind
      fun _ c' hc' _ _ => .pure hc' trivial

/-- The attributes of a list that was opened before. -/
theorem tracks_attributes (fuel : Nat) {start : Nat} (hc : c.IsAt s) (hstart : s.IsPlace start)
    (hlt : start < c.pos) : Tracks s c (attributes fuel start) fun _ _ => True := by
  induction fuel generalizing c with
  | zero => exact .pure hc trivial
  | succ fuel ih =>
    unfold attributes
    refine (tracks_takeWhile (Or.inl (by decide)) hc).bind fun _ c₁ hc₁ hle₁ _ => ?_
    refine .accept (by decide) hc₁ (fun c₂ hc₂ _ => .pure hc₂ trivial) ?_
    refine .atEnd (tracks_fault _ hc₁ hstart (by omega)) ?_
    refine ((tracks_id hc₁).named _).bind fun name c₂ hc₂ hle₂ _ => ?_
    refine (tracks_blanks hc₂).bind fun _ c₃ hc₃ hle₃ _ => ?_
    refine .accept (by decide) hc₃ (fun c₄ hc₄ hlt₄ => ?_) ?_
    · refine (tracks_blanks hc₄).bind fun _ c₅ hc₅ hle₅ _ => ?_
      refine ((tracks_id hc₅).named _).bind fun value c₆ hc₆ hle₆ _ => ?_
      exact (ih hc₆ (by omega)).bind fun rest c₇ hc₇ _ _ => .pure hc₇ trivial
    · exact (ih hc₃ (by omega)).bind fun rest c₄ hc₄ _ _ => .pure hc₄ trivial

/-- So does one list of attributes. -/
theorem tracks_attributeListBody (hc : c.IsAt s) :
    Tracks s c attributeListBody fun _ _ => True := by
  unfold attributeListBody
  refine .cursor (.accept (by decide) hc (fun c₁ hc₁ hlt => ?_) (tracks_expected _ hc))
  exact tracks_attributes _ hc₁ hc.isPlace hlt

/-- So do all the lists that follow it. -/
theorem tracks_moreAttributeLists (fuel : Nat) (hc : c.IsAt s) :
    Tracks s c (moreAttributeLists fuel) fun _ _ => True := by
  induction fuel generalizing c with
  | zero => exact .pure hc trivial
  | succ fuel ih =>
    unfold moreAttributeLists
    refine (tracks_blanks hc).bind fun _ c₁ hc₁ _ _ => ?_
    refine .lookingAt (fun _ => ?_) (.pure hc₁ trivial)
    refine (tracks_attributeListBody hc₁).bind fun first c₂ hc₂ _ _ => ?_
    exact (ih hc₂).bind fun rest c₃ hc₃ _ _ => .pure hc₃ trivial

/-- So do the lists of attributes, if there are any. -/
theorem tracks_attributeLists (hc : c.IsAt s) : Tracks s c attributeLists fun _ _ => True := by
  unfold attributeLists
  refine (tracks_attributeListBody hc).bind fun first c₁ hc₁ _ _ => .cursor ?_
  exact (tracks_moreAttributeLists _ hc₁).bind fun rest c₂ hc₂ _ _ => .pure hc₂ trivial

/-! ## Statements of the body -/

/-- The places of a statement of the body: those of the ids of a chain. -/
def BodyStatement.IsIn (s : Statement) : BodyStatement → Prop
  | .defaults _ _ => True
  | .assignment _ _ => True
  | .chain first rest _ => first.span.IsIn s ∧ ∀ id ∈ rest, id.span.IsIn s

/-- The defaults of an owner are tracked like its attributes. -/
theorem tracks_defaultsFor (owner : Owner) (hc : c.IsAt s) :
    Tracks s c (defaultsFor owner) fun _ _ => True := by
  unfold defaultsFor
  exact (tracks_keyword _ hc).bind fun _ c' hc' _ _ => .pure hc' trivial

/-- Defaults stay in the statement. -/
theorem tracks_defaults (hc : c.IsAt s) : Tracks s c defaults fun b _ => b.IsIn s := by
  unfold defaults
  have howner := (tracks_defaultsFor .graph hc).or
    ((tracks_defaultsFor .node hc).or (tracks_defaultsFor .edge hc))
  refine howner.bind fun owner c₁ hc₁ _ _ => ?_
  refine (tracks_blanks hc₁).bind fun _ c₂ hc₂ _ _ => ?_
  exact (tracks_attributeLists hc₂).bind fun _ c₃ hc₃ _ _ => .pure hc₃ trivial

/-- An assignment stays in the statement. -/
theorem tracks_assignment (hc : c.IsAt s) : Tracks s c assignment fun b _ => b.IsIn s := by
  unfold assignment
  refine (tracks_id hc).bind fun name c₁ hc₁ _ _ => ?_
  refine (tracks_blanks hc₁).bind fun _ c₂ hc₂ _ _ => ?_
  refine .accept (by decide) hc₂ (fun c₃ hc₃ _ => ?_) (.of_eq_error rfl hc₂)
  refine (tracks_blanks hc₃).bind fun _ c₄ hc₄ _ _ => ?_
  exact (tracks_id hc₄).bind fun value c₅ hc₅ _ _ => .pure hc₅ trivial

/-- The id of a node is spanned within the statement. -/
theorem tracks_nodeId (hc : c.IsAt s) : Tracks s c nodeId fun id _ => id.span.IsIn s :=
  (((tracks_id hc).named _).spanned hc).mono fun _ _ _ h => h.1

/-- So is every id that an edge goes on to. -/
theorem tracks_links (fuel : Nat) (hc : c.IsAt s) :
    Tracks s c (links fuel) fun rest _ => ∀ id ∈ rest, id.span.IsIn s := by
  induction fuel generalizing c with
  | zero => exact .pure hc (List.forall_mem_nil _)
  | succ fuel ih =>
    unfold links
    refine (tracks_blanks hc).bind fun _ c₁ hc₁ _ _ => .position ?_
    refine .accept (by decide) hc₁ (fun c₂ hc₂ _ => ?_) ?_
    · refine (tracks_blanks hc₂).bind fun _ c₃ hc₃ _ _ => ?_
      refine (tracks_nodeId hc₃).bind fun next c₄ hc₄ _ hnext => ?_
      exact (ih hc₄).bind fun rest c₅ hc₅ _ hrest =>
        .pure hc₅ (List.forall_mem_cons.2 ⟨hnext, hrest⟩)
    · exact .accept (by decide) hc₁ (fun c₂ hc₂ hlt => tracks_fault _ hc₂ hc₁.isPlace hlt)
        (.pure hc₁ (List.forall_mem_nil _))

/-- A chain of edges stays in the statement. -/
theorem tracks_chain (hc : c.IsAt s) : Tracks s c chain fun b _ => b.IsIn s := by
  unfold chain
  refine (tracks_nodeId hc).bind fun first c₁ hc₁ _ hfirst => .cursor ?_
  refine (tracks_links _ hc₁).bind fun rest c₂ hc₂ _ hrest => ?_
  refine .lookingAt (fun _ => ?_) (.pure hc₂ ⟨hfirst, hrest⟩)
  exact (tracks_attributeLists hc₂).bind fun _ c₃ hc₃ _ _ => .pure hc₃ ⟨hfirst, hrest⟩

/-- **A statement of the body points to places of its own.** -/
theorem tracks_bodyStatement (hc : c.IsAt s) : Tracks s c bodyStatement fun b _ => b.IsIn s :=
  (tracks_defaults hc).or ((tracks_assignment hc).or (tracks_chain hc))

/-! ## Statements -/

namespace Progress

variable {p : Progress}

/-- Attributes of the graph put nothing into a draft that would not be placed. -/
theorem isPlaced_setGraph (hp : p.draft.IsPlaced source) (hs : s.StandsIn source)
    (attributes : List Attribute) : (p.setGraph s attributes).draft.IsPlaced source := by
  induction attributes generalizing p with
  | nil => exact hp
  | cons a rest ih =>
    obtain ⟨name, value⟩ := a
    unfold setGraph
    split
    · exact ih (hp.setTitle value)
    split
    · split
      · exact ih (hp.setDirection _)
      · exact hp.report (Diagnostic.isPlaced_of_label hs.isWithin_span rfl rfl rfl rfl)
    · exact ih hp

/-- Edges between placed ends may be added one after the other. -/
theorem isPlaced_connectAll {d : Draft} (hd : d.IsPlaced source) (attributes : List Attribute)
    {first : Spanned String} (hfirst : first.span.IsWithin source) {rest : List (Spanned String)}
    (hrest : ∀ id ∈ rest, id.span.IsWithin source) :
    (connectAll d attributes first rest).IsPlaced source := by
  induction rest generalizing d first with
  | nil => exact hd
  | cons target rest ih =>
    obtain ⟨htarget, hrest⟩ := List.forall_mem_cons.1 hrest
    exact ih (hd.connect _ hfirst htarget) htarget hrest

/-- A statement of the body adds placed parts. -/
theorem isPlaced_add (hp : p.draft.IsPlaced source) (hs : s.StandsIn source) {b : BodyStatement}
    (hb : b.IsIn s) : (p.add s b).draft.IsPlaced source := by
  unfold add
  split
  · exact isPlaced_setGraph hp hs _
  · exact hp
  · exact hp
  · exact isPlaced_setGraph hp hs _
  · exact hp.declare _ (hb.1.isWithin hs)
  · exact isPlaced_connectAll hp _ (hb.1.isWithin hs) fun id hid => (hb.2 id hid).isWithin hs

/-- **One statement keeps the draft placed.** -/
theorem isPlaced_readStatement (hp : p.draft.IsPlaced source) (hs : s.StandsIn source) :
    (p.readStatement s).draft.IsPlaced source := by
  have hbody := hs.read (tracks_bodyStatement s.isAt_cursor)
  unfold readStatement
  split
  · exact hp.report (Diagnostic.isPlaced_of_label hs.isWithin_span rfl rfl rfl rfl)
  split
  · next b hread => exact isPlaced_add hp hs (hbody.ok b hread)
  · next problem hread => exact hp.report (hbody.error problem hread)

end Progress

/-! ## Graphs -/

/-- The opening brace stands in front of the place where the header ends. -/
theorem tracks_header (hc : c.IsAt s) :
    Tracks s c header fun _ c' => ∃ opened, s.IsPlace opened ∧ c'.pos = opened + 1 := by
  unfold header
  have hstrict : Tracks s c (do let _ ← Reader.keyword "strict"; Reader.someBlanks)
      fun _ _ => True :=
    (tracks_keyword _ hc).bind fun _ c' hc' _ _ => tracks_someBlanks hc'
  refine (hstrict.optional hc).bind fun _ c₁ hc₁ _ _ => .position ?_
  refine (((tracks_keyword _ hc₁).or (tracks_keyword _ hc₁)).named _).bind ?_
  intro kind c₂ hc₂ _ hlt
  refine .ite (fun _ => tracks_fault _ hc₂ hc₁.isPlace hlt) fun _ => ?_
  refine (tracks_blanks hc₂).bind fun _ c₃ hc₃ _ _ => ?_
  refine ((tracks_id hc₃).optional hc₃).bind fun _ c₄ hc₄ _ _ => ?_
  refine (tracks_blanks hc₄).bind fun _ c₅ hc₅ _ _ => ?_
  refine .accept_after (by decide) hc₅ (fun rest hafter _ => ?_) (tracks_expected _ hc₅)
  exact .pure hafter ⟨c₅.pos, hc₅.isPlace, rfl⟩

/-- Breaking at the last mark splits the text there. -/
theorem eq_of_breakAtLast? {mark : Char} {cs before after : List Char}
    (h : Text.breakAtLast? mark cs = some (before, after)) : cs = before ++ mark :: after := by
  induction cs generalizing before with
  | nil => exact absurd h (by simp [Text.breakAtLast?])
  | cons e cs ih =>
    rw [Text.breakAtLast?] at h
    split at h
    · next found hfound =>
      obtain ⟨rfl, rfl⟩ := Prod.mk.inj (Option.some.inj h)
      rw [List.cons_append, ← ih hfound]
    · split at h
      · next he =>
        obtain ⟨rfl, rfl⟩ := Prod.mk.inj (Option.some.inj h)
        rw [he, List.nil_append]
      · exact absurd h (by simp)

/-- **The body of a graph stands in the source as the graph does.** -/
theorem places_graphBody {graph : Statement} (hgraph : graph.StandsIn source) :
    Places source (graphBody graph) (Statement.StandsIn source) := by
  have hheader := tracks_header graph.isAt_cursor
  unfold graphBody
  split
  · next stop hread =>
    have hstop := Statement.isPlaced_diagnose hgraph (hheader.error stop hread)
    exact .of_error {
      severity_eq := hstop.severity_eq
      code_isSome := rfl
      labels := hstop.labels
      primary := hstop.primary
      line_eq := hstop.line_eq }
  · next inside hread =>
    obtain ⟨hinside, -, opened, hopened, hpos⟩ := hheader.ok _ hread
    dsimp only at hinside hpos
    split
    · have hspan : (Span.ofRange (inside.pos - 1) (inside.pos - 1 + 1)).IsWithin source := by
        rw [hpos, Nat.add_sub_cancel]
        refine Span.isWithin_ofRange (hopened.isBoundary hgraph) ?_
        rw [← hpos]
        exact hinside.isBoundary hgraph
      exact Places.of_label hspan rfl rfl rfl rfl
    · next body after hbreak =>
      obtain ⟨taken, htext, hclear, hoffset⟩ := hinside
      have hrest := eq_of_breakAtLast? hbreak
      rw [hrest] at htext hclear
      dsimp only
      split
      · refine .of_ok (hgraph.part (s := ⟨body, inside.pos⟩) htext hoffset hclear ?_)
        exact .of_head (by simp)
      · next hmore =>
        have hbehind : Statement.StandsIn source
            (Statement.trim ⟨after, inside.pos + byteSize body + 1⟩) := by
          refine hgraph.trim (a := taken ++ (body ++ ['}'])) (b := []) ?_ ?_ ?_
          · rw [htext]
            simp
          · rw [hoffset, Text.byteSize_append, Text.byteSize_append, Nat.add_assoc, Nat.add_assoc]
            rfl
          · exact fun hnil => hmore (List.isEmpty_iff.2 hnil)
        exact Places.of_label hbehind.isWithin_span rfl rfl rfl rfl

/-- **The draft of a source is placed, and so is the complaint where there is none.** -/
theorem places_draft (source : List Char) :
    Places source (draft source) (Draft.IsPlaced source) := by
  refine (Conventions.places_hideComments_source isNarrow source).bind fun visible hvisible => ?_
  refine (Conventions.places_statements isNarrow hvisible).bind fun graphs hgraphs => ?_
  cases graphs with
  | nil =>
    have hstart := IsBoundary.zero source
    exact Places.of_label ⟨hstart, hstart⟩ rfl rfl rfl rfl
  | cons graph extra =>
    obtain ⟨hgraph, hextra⟩ := List.forall_mem_cons.1 hgraphs
    refine (places_graphBody hgraph).bind fun body hbody => ?_
    refine (Conventions.places_statements isNarrow hbody).bind fun statements hstatements => ?_
    -- what stands behind the graph is reported first
    have hstart : Draft.IsPlaced source
        (extra.foldl (fun d s => d.report (contentAfterGraph s.span)) {}) := by
      refine List.foldlRecOn extra _ (Draft.isPlaced_empty source) fun d hd s hs => hd.report ?_
      exact Diagnostic.isPlaced_of_label (hextra s hs).isWithin_span rfl rfl rfl rfl
    refine .of_ok (List.foldlRecOn (motive := fun p : Progress => p.draft.IsPlaced source)
      statements _ hstart fun p hp s hs => ?_)
    exact Progress.isPlaced_readStatement hp (hstatements s hs)

end Flowchart.Dot
