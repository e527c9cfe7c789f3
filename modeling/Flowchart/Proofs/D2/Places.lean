import Flowchart.D2.Reading
import Flowchart.Proofs.Source.Tracks

/-!
# Where the D2 reader points

The readers of keys, maps and connections are tracked. A bare key is read up to its last character
that is no blank, and so ends clearly; the entries of a map are read behind the place where the map
was opened. **The draft of a source is placed, and so are the complaints.**
-/

namespace Flowchart.D2

open Text (isBlank trimEnd)
open Reader

/-- Comments and brackets of this notation are ASCII. -/
theorem isNarrow : conventions.IsNarrow := ⟨by decide, by decide⟩

variable {source : List Char} {s : Statement} {c : Cursor} {d : Draft}

/-! ## Keys and values -/

/-- A bare key is a piece of the text. -/
theorem prefix_bareKey (cs : List Char) : bareKey cs <+: cs := by
  induction cs with
  | nil => exact List.nil_prefix
  | cons e cs ih =>
    unfold bareKey
    split
    · exact List.nil_prefix
    · exact List.cons_prefix_cons.2 ⟨rfl, ih⟩

/-- A key has a place and is not empty in the source. -/
theorem tracks_key (hc : c.IsAt s) :
    Tracks s c key fun k c' => k.span.IsIn s ∧ c.pos < c'.pos := by
  unfold key
  refine .lookingAt (fun _ => ?_) (.cursor (.ite (fun _ => tracks_expected _ hc) fun hne => ?_))
  · exact ((tracks_escapedString hc).spanned hc).bind fun name c' hc' _ h => .pure hc' h
  · rw [Bool.not_eq_true, List.isEmpty_eq_false_iff] at hne
    have hfront : trimEnd (bareKey c.rest) <+: c.rest :=
      (Text.prefix_trimEnd _).trans (prefix_bareKey _)
    have hink : EndsInk (trimEnd (bareKey c.rest)) := endsInk_of_getLast? hne (Text.getLast?_trimEnd _)
    refine (tracks_moveTo_drop hc hfront hink).bind
      fun _ c' hc' _ hlt => .position (.pure hc' ⟨?_, hlt⟩)
    exact Span.isIn_ofRange hc.isPlace hc'.isPlace

/-- A value leads to a place of the statement. -/
theorem tracks_value (hc : c.IsAt s) : Tracks s c value fun _ _ => True := by
  unfold value
  refine .lookingAt (fun _ => ?_) ?_
  · exact (tracks_escapedString hc).bind fun _ c' hc' _ _ => .pure hc' trivial
  · exact (tracks_takeWhile (Or.inl (by decide)) hc).bind fun _ c' hc' _ _ => .pure hc' trivial

/-! ## Maps and connections -/

/-- The entries of a map that was opened before. -/
theorem tracks_entries (fuel : Nat) (path : Option String) {start : Nat} (hc : c.IsAt s)
    (hstart : s.IsPlace start) (hlt : start < c.pos) :
    Tracks s c (entries fuel path start) fun _ _ => True := by
  induction fuel generalizing c path start with
  | zero => exact .pure hc trivial
  | succ fuel ih =>
    unfold entries
    refine (tracks_takeWhile (Or.inl (by decide)) hc).bind fun _ c₁ hc₁ hle₁ _ => ?_
    refine .accept (by decide) hc₁ (fun c₂ hc₂ _ => .pure hc₂ trivial) ?_
    refine .atEnd (tracks_fault _ hc₁ hstart (by omega)) (.position ?_)
    refine ((tracks_key hc₁).named _).bind fun name c₂ hc₂ _ ⟨_, hkey⟩ => ?_
    refine (tracks_takeWhile (Or.inl (by decide)) hc₂).bind fun _ c₃ hc₃ hle₃ _ => ?_
    refine .accept (by decide) hc₃ (fun c₄ hc₄ hlt₄ => ?_)
      (tracks_fault _ hc₃ hc₁.isPlace (by omega))
    refine (tracks_takeWhile (Or.inl (by decide)) hc₄).bind fun _ c₅ hc₅ hle₅ _ => .position ?_
    refine .accept (by decide) hc₅ (fun c₆ hc₆ hlt₆ => ?_) ?_
    · refine (ih _ hc₆ hc₅.isPlace hlt₆).bind fun inner c₇ hc₇ hle₇ _ => ?_
      exact (ih path hc₇ hstart (by omega)).bind fun rest c₈ hc₈ _ _ => .pure hc₈ trivial
    · refine (tracks_value hc₅).bind fun value c₆ hc₆ hle₆ _ => ?_
      exact (ih path hc₆ hstart (by omega)).bind fun rest c₇ hc₇ _ _ => .pure hc₇ trivial

/-- What connections lead to has its keys within the statement. -/
theorem tracks_links (fuel : Nat) (hc : c.IsAt s) :
    Tracks s c (links fuel) fun rest _ => ∀ p ∈ rest, p.2.span.IsIn s := by
  induction fuel generalizing c with
  | zero =>
    unfold links
    exact .pure hc (List.forall_mem_nil _)
  | succ fuel ih =>
    have hlink : ∀ (back : Bool) {c : Cursor}, c.IsAt s →
        Tracks s c (links.linkTo fuel back) fun rest _ => ∀ p ∈ rest, p.2.span.IsIn s := by
      intro back c hc
      unfold links.linkTo
      refine (tracks_blanks hc).bind fun _ c₁ hc₁ _ _ => ?_
      refine ((tracks_key hc₁).named _).bind fun next c₂ hc₂ _ ⟨hnext, _⟩ => ?_
      exact (ih hc₂).bind fun rest c₃ hc₃ _ hrest =>
        .pure hc₃ (List.forall_mem_cons.2 ⟨hnext, hrest⟩)
    unfold links
    refine (tracks_blanks hc).bind fun _ c₁ hc₁ _ _ => .position ?_
    refine .accept (by decide) hc₁ (fun c₂ hc₂ hlt => tracks_fault _ hc₂ hc₁.isPlace hlt) ?_
    refine .accept (by decide) hc₁ (fun c₂ hc₂ _ => hlink false hc₂) ?_
    refine .accept (by decide) hc₁ (fun c₂ hc₂ _ => hlink true hc₂) ?_
    refine .accept (by decide) hc₁ (fun c₂ hc₂ hlt => tracks_fault _ hc₂ hc₁.isPlace hlt) ?_
    exact .pure hc₁ (List.forall_mem_nil _)

theorem tracks_body (hc : c.IsAt s) : Tracks s c body fun _ _ => True := by
  unfold body
  have hmap : ∀ (label : Option String) {c : Cursor}, c.IsAt s → Tracks s c (do
      let c ← Reader.cursor
      if ← Reader.accept ['{'] then
        let map ← entries c.rest.length none c.pos
        return (label, map)
      else return (label, [])) fun _ _ => True := by
    intro label c hc
    refine .cursor (.accept (by decide) hc (fun c₁ hc₁ hlt => ?_) (.pure hc trivial))
    exact (tracks_entries _ none hc₁ hc.isPlace hlt).bind fun map c₂ hc₂ _ _ => .pure hc₂ trivial
  refine (tracks_blanks hc).bind fun _ c₁ hc₁ _ _ => .lookingAt (fun _ => ?_) ?_
  · exact hmap none hc₁
  · refine (tracks_value hc₁).bind fun label c₂ hc₂ _ _ => ?_
    exact (tracks_blanks hc₂).bind fun _ c₃ hc₃ _ _ => hmap (some label) hc₃

/-- The places of a declaration. -/
structure Declaration.IsIn (s : Statement) (decl : Declaration) : Prop where
  first : decl.first.span.IsIn s
  links : ∀ p ∈ decl.links, p.2.span.IsIn s

/-- **A declaration points to places of its statement.** -/
theorem tracks_declaration (hc : c.IsAt s) :
    Tracks s c declaration fun decl _ => decl.IsIn s := by
  unfold declaration
  refine ((tracks_key hc).named _).bind fun first c₁ hc₁ _ ⟨hfirst, _⟩ => .cursor ?_
  refine (tracks_links _ hc₁).bind fun links c₂ hc₂ _ hlinks => ?_
  refine .accept (by decide) hc₂ (fun c₃ hc₃ _ => ?_) (.pure hc₂ ⟨hfirst, hlinks⟩)
  exact (tracks_body hc₃).bind fun found c₄ hc₄ _ _ => .pure hc₄ ⟨hfirst, hlinks⟩

/-! ## Statements -/

/-- Connecting placed keys one after the other keeps a draft placed. -/
theorem isPlaced_connectAll (hd : d.IsPlaced source) (label : Option String) (type : EdgeType)
    {previous : Key} (hprevious : previous.span.IsWithin source) {rest : List (Bool × Key)}
    (hrest : ∀ p ∈ rest, p.2.span.IsWithin source) :
    (connectAll d label type previous rest).IsPlaced source := by
  induction rest generalizing d previous with
  | nil => exact hd
  | cons link rest ih =>
    obtain ⟨back, next⟩ := link
    obtain ⟨hnext, hlater⟩ := List.forall_mem_cons.1 hrest
    unfold connectAll
    split
    · exact hd.report (Diagnostic.isPlaced_of_label hprevious rfl rfl rfl rfl)
    split
    · exact hd.report (Diagnostic.isPlaced_of_label hnext rfl rfl rfl rfl)
    · cases back with
      | true => exact ih (hd.connect _ hnext hprevious) hnext hlater
      | false => exact ih (hd.connect _ hprevious hnext) hnext hlater

/-- A declared shape keeps a draft placed. -/
theorem isPlaced_addShape (hd : d.IsPlaced source) {decl : Declaration} (hdecl : decl.IsIn s)
    (hs : s.StandsIn source) : (addShape d s decl).IsPlaced source := by
  have hkey := hdecl.first.isWithin hs
  unfold addShape
  dsimp only
  generalize (if decl.first.quoted then "" else decl.first.name.toLower) = name
  split
  · split
    · exact hd.setDirection _
    · exact hd.report (Diagnostic.isPlaced_of_label hs.isWithin_span rfl rfl rfl rfl)
  split
  · exact hd.setTitle _
  split
  · exact hd.report (Diagnostic.isPlaced_of_label hs.isWithin_span rfl rfl rfl rfl)
  split
  · exact hd.report (Diagnostic.isPlaced_of_label hkey rfl rfl rfl rfl)
  · exact hd.declare _ hkey

/-- **One statement keeps the draft placed.** -/
theorem isPlaced_readStatement (hd : d.IsPlaced source) (hs : s.StandsIn source) :
    (readStatement d s).IsPlaced source := by
  have hdeclaration := hs.read (tracks_declaration s.isAt_cursor)
  unfold readStatement
  split
  · exact hd.report (Diagnostic.isPlaced_of_label hs.isWithin_span rfl rfl rfl rfl)
  split
  · next problem hread => exact hd.report (hdeclaration.error problem hread)
  · next decl hread =>
    have hdecl := hdeclaration.ok decl hread
    split
    · exact isPlaced_addShape hd hdecl hs
    · exact isPlaced_connectAll hd _ _ (hdecl.first.isWithin hs)
        fun p hp => (hdecl.links p hp).isWithin hs

/-- **The draft of a source is placed, and so is the complaint where there is none.** -/
theorem places_draft (source : List Char) :
    Places source (draft source) (Draft.IsPlaced source) := by
  refine (Conventions.places_hideComments_source isNarrow source).bind fun visible hvisible => ?_
  refine (Conventions.places_statements isNarrow hvisible).bind fun statements hstatements => ?_
  refine .of_ok (List.foldlRecOn statements _ (Draft.isPlaced_empty source) fun d hd s hs => ?_)
  exact isPlaced_readStatement hd (hstatements s hs)

end Flowchart.D2
