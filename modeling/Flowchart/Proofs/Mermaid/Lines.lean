import Flowchart.Mermaid.Notation
import Flowchart.Proofs.Text.Runs

/-!
# A Mermaid source is read line by line

Mermaid has no comment that spans lines, no bracket that keeps a statement open, and no string that
goes on behind the end of a line. So a line feed always brings the reader of comments and the cutter
of statements back to where they started, and **what one line is cut into does not depend on the
other lines**. `texts?` says what that is, places in the source left out.
-/

namespace Flowchart.Mermaid

open Conventions (CommentMode)

/-! ## Hiding comments -/

/-- No block comment is open and no mark is half hidden. -/
def IsFlat : CommentMode → Prop
  | .code 0 _ => True
  | .quoted _ => True
  | .line => True
  | _ => False

/-- The text with blanks in place of comments. -/
def visibleFrom : CommentMode → List Char → List Char
  | _, [] => []
  | mode, c :: cs =>
    let (next, inComment) := conventions.commentStep 0 mode c cs
    (if inComment then Conventions.hidden c else [c]) ++ visibleFrom next cs

variable {mode : CommentMode} {c : Char} {cs : List Char}

/-- A line feed ends whatever a line has started. -/
theorem commentStep_feed (h : IsFlat mode) (pos : Nat) (cs : List Char) :
    conventions.commentStep pos mode '\n' cs = (.code 0 true, false) := by
  unfold IsFlat at h
  split at h
  · rfl
  · rfl
  · rfl
  · exact absurd h id

/-- Whether a comment starts is decided before the end of the line. -/
theorem startsLineComment_append (lineStart : Bool) (c : Char) (cs rest : List Char) :
    conventions.startsLineComment lineStart (c :: (cs ++ '\n' :: rest)) =
      conventions.startsLineComment lineStart (c :: cs) := by
  have hmark : ∀ cs : List Char, conventions.startsLineComment lineStart cs =
      ['%', '%'].isPrefixOf cs := by
    intro cs
    simp [Conventions.startsLineComment, conventions]
  rw [hmark, hmark]
  cases cs with
  | nil => simp [List.isPrefixOf]
  | cons d ds => simp only [List.isPrefixOf, List.cons_append]

/-- A step stays flat; neither the place nor what stands behind the line matters for it. -/
theorem commentStep_flat (h : IsFlat mode) (c : Char) (cs : List Char) :
    IsFlat (conventions.commentStep 0 mode c cs).1 ∧
      (∀ pos, conventions.commentStep pos mode c cs = conventions.commentStep 0 mode c cs) ∧
      ∀ rest, conventions.commentStep 0 mode c (cs ++ '\n' :: rest) =
        conventions.commentStep 0 mode c cs := by
  have hblock : ∀ cs, conventions.startsBlockComment? cs = none := fun _ => rfl
  unfold IsFlat at h
  split at h
  · next lineStart =>
    simp only [Conventions.commentStep, hblock, startsLineComment_append, implies_true, and_true]
    split
    · trivial
    · split
      · trivial
      · split <;> trivial
  · next escaped =>
    simp only [Conventions.commentStep, implies_true, and_true]
    split
    · trivial
    · split
      · trivial
      · split
        · trivial
        · split <;> trivial
  · simp only [Conventions.commentStep, implies_true, and_true]
    split <;> trivial
  · exact absurd h id

/-- **Comments can always be hidden.** -/
theorem hideFrom_eq (h : IsFlat mode) (pos : Nat) (cs : List Char) :
    conventions.hideFrom pos mode cs = .ok (visibleFrom mode cs) := by
  induction cs generalizing pos mode with
  | nil =>
    unfold IsFlat at h
    split at h
    · rfl
    · rfl
    · rfl
    · exact absurd h id
  | cons c cs ih =>
    obtain ⟨hflat, hpos, -⟩ := commentStep_flat h c cs
    simp only [Conventions.hideFrom, visibleFrom, hpos, ih hflat]

/-- **The comments of two lines are hidden one by one.** -/
theorem visibleFrom_append (h : IsFlat mode) (line rest : List Char) :
    visibleFrom mode (line ++ '\n' :: rest) =
      visibleFrom mode line ++ '\n' :: visibleFrom (.code 0 true) rest := by
  induction line generalizing mode with
  | nil =>
    simp only [List.nil_append, visibleFrom, commentStep_feed h]
    rfl
  | cons c cs ih =>
    obtain ⟨hflat, -, hrest⟩ := commentStep_flat h c cs
    simp only [List.cons_append, visibleFrom, hrest, ih hflat, List.append_assoc]

/-! ## Cutting statements -/

/-- The first piece of a text and the later ones, unless a string is left open in a line; the text
may start inside a string. -/
def pieces? : (quoted : Bool) → List Char → Option (List Char × List (List Char))
  | true, [] => none
  | false, [] => some ([], [])
  | true, c :: cs =>
    if c = '\n' then none else (pieces? (c ≠ '"') cs).map fun p => (c :: p.1, p.2)
  | false, c :: cs =>
    if c = '\n' || c = ';' then (pieces? false cs).map fun p => ([], p.1 :: p.2)
    else (pieces? (c = '"') cs).map fun p => (c :: p.1, p.2)

/-- **The pieces of two lines are those of the first and then those of the second.** -/
theorem pieces?_append (quoted : Bool) (line rest : List Char) :
    pieces? quoted (line ++ '\n' :: rest) =
      (pieces? quoted line).bind fun p =>
        (pieces? false rest).map fun q => (p.1, p.2 ++ q.1 :: q.2) := by
  induction line generalizing quoted with
  | nil => cases quoted <;> cases hrest : pieces? false rest <;> simp [pieces?, hrest]
  | cons c cs ih =>
    cases quoted with
    | true =>
      rw [List.cons_append, pieces?, pieces?, ih]
      split
      · rfl
      · rw [Option.map_bind, Option.bind_map]
        simp only [Function.comp_def, Option.map_map]
    | false =>
      rw [List.cons_append, pieces?, pieces?, ih, ih]
      split
      · rw [Option.map_bind, Option.bind_map]
        simp only [Function.comp_def, Option.map_map, List.cons_append]
      · rw [Option.map_bind, Option.bind_map]
        simp only [Function.comp_def, Option.map_map]

/-- What the cutter makes of a text, places left out. -/
def cutPieces (pos : Nat) (state : Conventions.CutState) (cs : List Char) :
    Option (List Char × List (List Char)) :=
  (conventions.cut pos state cs).toOption.map fun p => (p.1, p.2.map Statement.text)

theorem cutPieces_cons {pos : Nat} {state next : Conventions.CutState} {ends : Bool}
    (hstep : conventions.cutStep pos state c = .ok (next, ends)) :
    cutPieces pos state (c :: cs) = (cutPieces (pos + c.utf8Size) next cs).map fun p =>
      if ends then ([], p.1 :: p.2) else (c :: p.1, p.2) := by
  simp only [cutPieces, Conventions.cut, hstep]
  cases conventions.cut (pos + c.utf8Size) next cs with
  | error imbalance => rfl
  | ok found => cases ends <;> rfl

/-- **The cutter cuts a text into its pieces**, and stops where a string is left open. -/
theorem cutPieces_eq (openedAt? : Option Nat) (pos : Nat) (cs : List Char) :
    cutPieces pos { quote := openedAt?.map fun o => (o, false) } cs =
      pieces? openedAt?.isSome cs := by
  induction cs generalizing openedAt? pos with
  | nil => cases openedAt? <;> rfl
  | cons c cs ih =>
    cases openedAt? with
    | none =>
      by_cases hquote : c = '"'
      · subst hquote
        have hstep : conventions.cutStep pos {} '"' =
            .ok ({ quote := some (pos, false) }, false) := rfl
        rw [Option.map_none, cutPieces_cons hstep]
        exact congrArg _ (ih (some pos) _)
      · have hstep : conventions.cutStep pos {} c =
            .ok ({}, decide (c = '\n') || decide (c = ';')) := by
          simp [Conventions.cutStep, conventions, Conventions.isSeparator, hquote]
        have hrest := ih none (pos + c.utf8Size)
        rw [Option.map_none] at hrest
        rw [Option.map_none, cutPieces_cons hstep, hrest, Option.isSome_none, pieces?]
        cases decide (c = '\n') || decide (c = ';') <;> simp [hquote]
    | some openedAt =>
      by_cases hfeed : c = '\n'
      · subst hfeed
        rfl
      · have hstep : conventions.cutStep pos { quote := some (openedAt, false) } c =
            .ok ({ quote := (if c = '"' then none else some openedAt).map fun o => (o, false) },
              false) := by
          by_cases hquote : c = '"' <;>
            simp [Conventions.cutStep, conventions, hfeed, hquote]
        rw [Option.map_some, cutPieces_cons hstep, ih, Option.isSome_some, pieces?, if_neg hfeed]
        by_cases hquote : c = '"' <;> simp [hquote]

/-! ## Statements -/

/-- The texts of the statements of a source, unless a string is left open. -/
def texts? (cs : List Char) : Option (List (List Char)) :=
  (pieces? false (visibleFrom (.code 0 true) cs)).map fun p =>
    ((p.1 :: p.2).map Text.trim).filter fun text => !text.isEmpty

/-- **The statements of two lines are those of the first and then those of the second.** -/
theorem texts?_append (line rest : List Char) :
    texts? (line ++ '\n' :: rest) =
      (texts? line).bind fun s => (texts? rest).map fun t => s ++ t := by
  have hflat : IsFlat (.code 0 true) := trivial
  rw [texts?, visibleFrom_append hflat, pieces?_append, texts?, texts?, Option.bind_map,
    Option.map_bind]
  simp only [Function.comp_def, Option.map_map, ← List.cons_append, List.map_append,
    List.filter_append]

theorem texts?_nil : texts? [] = some [] := rfl

/-- The statements of lines, and then those of the text behind them. -/
theorem texts?_unlines_append (ls : List (List Char)) (rest : List Char) :
    texts? (Text.unlines ls ++ rest) =
      (texts? (Text.unlines ls)).bind fun s => (texts? rest).map fun t => s ++ t := by
  induction ls with
  | nil =>
    rw [Text.unlines_nil, List.nil_append, texts?_nil]
    simp
  | cons line ls ih =>
    rw [Text.unlines_cons, List.append_assoc, List.cons_append, texts?_append, texts?_append, ih]
    cases texts? line <;> cases texts? (Text.unlines ls) <;> cases texts? rest <;> simp

/-- **Lines are cut into statements of a kind exactly if each line is.** -/
theorem exists_texts?_unlines_iff {p : List Char → Prop} {ls : List (List Char)} :
    (∃ texts, texts? (Text.unlines ls) = some texts ∧ ∀ t ∈ texts, p t) ↔
      ∀ line ∈ ls, ∃ texts, texts? line = some texts ∧ ∀ t ∈ texts, p t := by
  induction ls with
  | nil => simp [texts?_nil]
  | cons line ls ih =>
    rw [List.forall_mem_cons, ← ih, Text.unlines_cons, texts?_append]
    cases texts? line with
    | none => simp
    | some s =>
      cases texts? (Text.unlines ls) with
      | none => simp
      | some t => simp [or_imp, forall_and]

theorem hideComments_eq (base : Nat) (cs : List Char) :
    conventions.hideComments base cs = .ok (visibleFrom (.code 0 true) cs) := by
  have hflat : IsFlat (.code 0 true) := trivial
  rw [Conventions.hideComments, hideFrom_eq hflat]

/-- **What is cut from a source**, wherever it stands. -/
theorem toOption_statements (base : Nat) (cs : List Char) :
    (conventions.statements base (visibleFrom (.code 0 true) cs)).toOption.map
      (·.map Statement.text) = texts? cs := by
  have hcut := cutPieces_eq none base (visibleFrom (.code 0 true) cs)
  rw [Option.map_none, Option.isSome_none, cutPieces] at hcut
  rw [texts?, ← hcut, Conventions.statements]
  cases conventions.cut base {} (visibleFrom (.code 0 true) cs) with
  | error imbalance => rfl
  | ok found =>
    have htexts : ∀ ss : List Statement,
        ((ss.map Statement.trim).filter fun s => !s.text.isEmpty).map Statement.text =
          ((ss.map Statement.text).map Text.trim).filter fun text => !text.isEmpty := by
      intro ss
      have htrim : (ss.map Statement.trim).map Statement.text =
          (ss.map Statement.text).map Text.trim := by
        rw [List.map_map, List.map_map]
        rfl
      rw [← htrim]
      exact (List.filter_map (f := Statement.text) (p := fun text => !text.isEmpty)).symm
    exact congrArg some (htexts (⟨found.1, base⟩ :: found.2))

/-- A source is cut exactly if no string is left open in it. -/
theorem statements_eq_ok_iff (base : Nat) {cs : List Char} {texts : List (List Char)} :
    (∃ found, conventions.statements base (visibleFrom (.code 0 true) cs) = .ok found ∧
      found.map Statement.text = texts) ↔ texts? cs = some texts := by
  rw [← toOption_statements base cs]
  cases conventions.statements base (visibleFrom (.code 0 true) cs) <;> simp [Except.toOption]

end Flowchart.Mermaid
