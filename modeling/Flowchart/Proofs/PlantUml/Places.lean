import Flowchart.PlantUml.Reading
import Flowchart.Proofs.Source.Tracks

/-!
# Where the PlantUML reader points

The readers of elements and arrows are tracked. The only text that is read without a mark or a class
of characters of its own is the run of an arrow, which ends with a stroke, a head, a closing bracket
or a letter, and so clearly. **The draft of a source is placed, and so are the complaints.**
-/

namespace Flowchart.PlantUml

open Text (byteSize firstWord isBlank)
open Reader

/-- Comments and brackets of this notation are ASCII. -/
theorem isNarrow : conventions.IsNarrow := ⟨by decide, by decide⟩

variable {source : List Char} {s : Statement} {c : Cursor} {d : Draft}

/-! ## Elements -/

/-- The word in front of a name leads to a place of the statement. -/
theorem tracks_asWord (hc : c.IsAt s) : Tracks s c asWord fun _ _ => True := by
  unfold asWord
  refine (tracks_someBlanks hc).bind fun _ c₁ hc₁ _ _ => ?_
  exact (tracks_keyword _ hc₁).bind fun _ c₂ hc₂ _ _ => tracks_someBlanks hc₂

/-- The id of an element is spanned within the statement. -/
theorem tracks_elementId (hc : c.IsAt s) : Tracks s c elementId fun id _ => id.span.IsIn s :=
  (((tracks_identifier hc).named _).spanned hc).mono fun _ _ _ h => h.1

/-- A stereotype leads to a place of the statement. -/
theorem tracks_stereotype (hc : c.IsAt s) : Tracks s c stereotype fun _ _ => True := by
  unfold stereotype
  refine .cursor ?_
  split
  · exact tracks_expected _ hc
  · next body hopen =>
    have hrest := (List.append_eq_of_isPrefixOf?_eq_some hopen).symm
    split
    · next name after hclose =>
      have hsplit : c.rest = (['<', '<'] ++ name ++ ['>', '>']) ++ after := by
        rw [hrest, Text.eq_of_breakAt? hclose]
        simp
      have hclosed : EndsInk ['>', '>'] := by decide
      exact (tracks_moveTo hc hsplit (hclosed.append_left _)).bind
        fun _ c' hc' _ _ => .pure hc' trivial
    · exact tracks_fault_here _ hc hrest rfl

/-- An id stays within the statement, with a label or without one. -/
theorem tracks_idAndLabel (hc : c.IsAt s) :
    Tracks s c idAndLabel fun found _ => found.1.span.IsIn s := by
  unfold idAndLabel
  refine .lookingAt (fun _ => ?_) ?_
  · refine (tracks_rawString hc).bind fun label c₁ hc₁ _ _ => ?_
    refine (tracks_asWord hc₁).bind fun _ c₂ hc₂ _ _ => ?_
    exact (tracks_elementId hc₂).bind fun id c₃ hc₃ _ hid => .pure hc₃ hid
  · refine (tracks_elementId hc).bind fun id c₁ hc₁ _ hid => ?_
    have hlabel : Tracks s c₁ (do asWord; Reader.rawString) fun _ _ => True :=
      (tracks_asWord hc₁).bind fun _ c₂ hc₂ _ _ => (tracks_rawString hc₂).mono fun _ _ _ _ => trivial
    exact (hlabel.optional hc₁).bind fun label c₂ hc₂ _ _ => .pure hc₂ hid

/-- A color leads to a place of the statement. -/
theorem tracks_color (hc : c.IsAt s) : Tracks s c color fun _ _ => True := by
  unfold color
  refine .accept (by decide) hc (fun c' hc' _ => ?_) (tracks_expected _ hc)
  exact (tracks_identifier hc').bind fun _ c'' hc'' _ _ => .pure hc'' trivial

/-- The declaration of an element has its id within the statement. -/
theorem tracks_elementDeclaration (hc : c.IsAt s) :
    Tracks s c elementDeclaration fun e _ => e.id.span.IsIn s := by
  unfold elementDeclaration
  refine ((tracks_identifier hc).named _).bind fun keyword c₁ hc₁ _ _ => ?_
  refine (tracks_someBlanks hc₁).bind fun _ c₂ hc₂ _ _ => ?_
  refine (tracks_idAndLabel hc₂).bind fun found c₃ hc₃ _ hid => ?_
  refine (tracks_blanks hc₃).bind fun _ c₄ hc₄ _ _ => ?_
  refine ((tracks_stereotype hc₄).optional hc₄).bind fun stereotype c₅ hc₅ _ _ => ?_
  refine (tracks_blanks hc₅).bind fun _ c₆ hc₆ _ _ => ?_
  exact ((tracks_color hc₆).optional hc₆).bind fun _ c₇ hc₇ _ _ => .pure hc₇ hid

/-! ## Arrows -/

/-- A part of an arrow is a piece of the text. -/
theorem prefix_arrowRun (part : ArrowPart) (cs : List Char) : arrowRun part cs <+: cs := by
  fun_induction arrowRun part cs with
  | case1 | case7 | case8 | case9 => exact List.nil_prefix
  | case2 _ _ ih | case3 _ _ _ _ _ ih | case4 _ _ _ _ _ _ ih | case5 _ _ _ _ _ _ ih
  | case6 _ _ _ _ _ _ _ ih => exact List.cons_prefix_cons.2 ⟨rfl, ih⟩

/-- Inside brackets every character continues an arrow. -/
theorem arrowRun_brackets_ne_nil {cs : List Char} (h : cs ≠ []) : arrowRun .brackets cs ≠ [] := by
  obtain ⟨e, cs, rfl⟩ := List.exists_cons_of_ne_nil h
  rw [arrowRun]
  exact List.cons_ne_nil _ _

/-- No letter is a blank. -/
theorem isBlank_eq_false_of_isAlpha {e : Char} (h : e.isAlpha = true) : isBlank e = false := by
  refine Text.isBlank_eq_false_of_isWordChar ?_
  have halnum : e.isAlphanum = true := by rw [Char.isAlphanum, h, Bool.true_or]
  rw [Text.isWordChar, Text.isAlphanumeric_of_isAlphanum halnum, Bool.true_or]

/-- A run in which another run follows its first character. -/
theorem isBlank_getLast?_cons {e : Char} {run : List Char}
    (hrun : ∀ f ∈ run.getLast?, isBlank f = false) (he : run = [] → isBlank e = false) :
    ∀ f ∈ (e :: run).getLast?, isBlank f = false := by
  intro f hf
  cases run with
  | nil =>
    obtain rfl : e = f := by simpa using hf
    exact he rfl
  | cons g run =>
    rw [List.getLast?_cons_cons] at hf
    exact hrun f hf

/-- **The run of an arrow does not end with a blank**, if the brackets in which it begins are
closed. -/
theorem isBlank_getLast?_arrowRun {part : ArrowPart} {cs : List Char}
    (hclosed : part = .brackets → ']' ∈ cs) :
    ∀ e ∈ (arrowRun part cs).getLast?, isBlank e = false := by
  fun_induction arrowRun part cs with
  | case1 | case7 | case8 | case9 => simp
  | case2 e cs ih =>
    by_cases he : e = ']'
    · rw [if_pos he] at ih ⊢
      refine isBlank_getLast?_cons (ih (by simp)) fun _ => ?_
      rw [he]
      decide
    -- the closing bracket comes later
    · rw [if_neg he] at ih ⊢
      have hlater : ']' ∈ cs := (List.mem_cons.1 (hclosed rfl)).resolve_left (Ne.symm he)
      refine isBlank_getLast?_cons (ih fun _ => hlater) fun hnil => ?_
      exact absurd hnil (arrowRun_brackets_ne_nil (List.ne_nil_of_mem hlater))
  | case3 part e cs _ hmark ih =>
    refine isBlank_getLast?_cons (ih (by simp)) fun _ => ?_
    simp only [Bool.or_eq_true, decide_eq_true_eq] at hmark
    rcases hmark with ((((rfl | rfl) | rfl) | rfl) | rfl) | rfl <;> decide
  | case4 part e cs _ _ hopen ih =>
    rw [Bool.and_eq_true, decide_eq_true_eq, List.contains_iff_mem] at hopen
    refine isBlank_getLast?_cons (ih fun _ => hopen.2) fun _ => ?_
    rw [hopen.1]
    decide
  | case5 e cs _ _ halpha _ ih | case6 e cs _ _ halpha _ _ ih =>
    exact isBlank_getLast?_cons (ih (by simp)) fun _ => isBlank_eq_false_of_isAlpha halpha

/-- An arrow takes the cursor on. -/
theorem tracks_arrowToken (hc : c.IsAt s) : Tracks s c arrowToken fun _ c' => c.pos < c'.pos := by
  unfold arrowToken
  refine .cursor (.ite (fun hstroke => ?_) fun _ => tracks_expected _ hc)
  have hne : arrowRun (.strokes false) c.rest ≠ [] := by
    intro hnil
    rw [hnil] at hstroke
    exact absurd hstroke (by decide)
  have hink : EndsInk (arrowRun (.strokes false) c.rest) :=
    endsInk_of_getLast? hne (isBlank_getLast?_arrowRun (by simp))
  exact (tracks_moveTo_drop hc (prefix_arrowRun _ _) hink).bind fun _ c' hc' _ hlt => .pure hc' hlt

/-- The id at an end of an arrow is spanned within the statement. -/
theorem tracks_nodeId (hc : c.IsAt s) : Tracks s c nodeId fun id _ => id.span.IsIn s :=
  (((tracks_identifier hc).named _).spanned hc).mono fun _ _ _ h => h.1

/-- The label of an arrow leads to a place of the statement. -/
theorem tracks_arrowLabel (hc : c.IsAt s) : Tracks s c arrowLabel fun _ _ => True := by
  unfold arrowLabel
  refine .accept (by decide) hc (fun c' hc' _ => ?_) (.pure hc trivial)
  exact (tracks_takeAll hc').bind fun _ c'' hc'' _ _ => .pure hc'' trivial

/-- **An arrow has both of its ends within the statement.** -/
theorem tracks_arrowStatement (hc : c.IsAt s) :
    Tracks s c arrowStatement fun a _ => a.source.span.IsIn s ∧ a.target.span.IsIn s := by
  unfold arrowStatement
  refine (tracks_nodeId hc).bind fun first c₁ hc₁ _ hfirst => ?_
  refine (tracks_blanks hc₁).bind fun _ c₂ hc₂ _ _ => .position ?_
  refine ((tracks_arrowToken hc₂).named _).bind fun token c₃ hc₃ _ hlt => ?_
  split
  · exact tracks_fault _ hc₃ hc₂.isPlace hlt
  · next type leftwards _ =>
    refine (tracks_blanks hc₃).bind fun _ c₄ hc₄ _ _ => ?_
    refine (tracks_nodeId hc₄).bind fun second c₅ hc₅ _ hsecond => ?_
    refine (tracks_blanks hc₅).bind fun _ c₆ hc₆ _ _ => ?_
    refine (tracks_arrowLabel hc₆).bind fun label c₇ hc₇ _ _ => .pure hc₇ ?_
    cases leftwards with
    | true => exact ⟨hsecond, hfirst⟩
    | false => exact ⟨hfirst, hsecond⟩

/-! ## Statements -/

/-- A word that is not supported is reported at its statement. -/
theorem isPlaced_unsupported (hs : s.StandsIn source) (word : List Char) :
    (unsupported s word).IsPlaced source :=
  Diagnostic.isPlaced_of_label hs.isWithin_span rfl rfl rfl rfl

/-- **One statement keeps the draft placed.** -/
theorem isPlaced_readStatement (hd : d.IsPlaced source) (hs : s.StandsIn source) :
    (readStatement d s).IsPlaced source := by
  have helement := hs.read (tracks_elementDeclaration s.isAt_cursor)
  have harrow := hs.read (tracks_arrowStatement s.isAt_cursor)
  have hadd : ∀ a, s.read arrowStatement = .ok a → (addArrow d a).IsPlaced source := by
    intro a hread
    obtain ⟨hsource, htarget⟩ := harrow.ok a hread
    exact hd.connect _ (hsource.isWithin hs) (htarget.isWithin hs)
  have hreport : ∀ (problem : Diagnostic) (unsupportedWord : Bool), problem.IsPlaced source →
      Draft.IsPlaced source (if unsupportedWord then d.report (unsupported s (firstWord s.text))
        else d.report problem) := by
    intro problem unsupportedWord hproblem
    split
    · exact hd.report (isPlaced_unsupported hs _)
    · exact hd.report hproblem
  unfold readStatement
  dsimp only
  split
  · exact hd.setTitle _
  split
  · exact hd.setDirection _
  split
  · exact hd
  split
  · exact hd.report (isPlaced_unsupported hs _)
  split
  · split
    · next element hread => exact hd.declare _ ((helement.ok element hread).isWithin hs)
    -- a line that declares nothing may still be an arrow, or else the first complaint counts
    · next elementProblem helse =>
      split
      · next a hread => exact hadd a hread
      · exact hreport _ _ (helement.error elementProblem helse)
  · split
    · next a hread => exact hadd a hread
    · next problem hread => exact hreport _ _ (harrow.error problem hread)

/-- Statements are read one after the other into a placed draft. -/
theorem isPlaced_readStatements (hd : d.IsPlaced source) {statements : List Statement}
    (hs : ∀ s ∈ statements, s.StandsIn source) :
    (readStatements (byteSize source) d statements).IsPlaced source := by
  induction statements generalizing d with
  | nil =>
    have hend := IsBoundary.byteSize source
    exact hd.report (Diagnostic.isPlaced_of_label ⟨hend, hend⟩ rfl rfl rfl rfl)
  | cons s rest ih =>
    obtain ⟨hfirst, hrest⟩ := List.forall_mem_cons.1 hs
    unfold readStatements
    split
    · split
      · exact hd
      · next extra _ =>
        have hextra := (List.forall_mem_cons.1 hrest).1.isWithin_span
        exact hd.report (Diagnostic.isPlaced_of_label hextra rfl rfl rfl rfl)
    · exact ih (isPlaced_readStatement hd hfirst) hrest

/-- **The draft of a source is placed, and so is the complaint where there is none.** -/
theorem places_draft (source : List Char) :
    Places source (draft source) (Draft.IsPlaced source) := by
  refine (Conventions.places_hideComments_source isNarrow source).bind fun visible hvisible => ?_
  refine (Conventions.places_statements isNarrow hvisible).bind fun statements hstatements => ?_
  cases statements with
  | nil =>
    have hstart := IsBoundary.zero source
    exact Places.of_label ⟨hstart, hstart⟩ rfl rfl rfl rfl
  | cons first rest =>
    obtain ⟨hfirst, hrest⟩ := List.forall_mem_cons.1 hstatements
    dsimp only
    split
    · exact .of_ok (isPlaced_readStatements (Draft.isPlaced_empty source) hrest)
    · exact Places.of_label hfirst.isWithin_span rfl rfl rfl rfl

end Flowchart.PlantUml
