import Flowchart.Command.Action

/-!
# What a failed action leaves

Every way to build an action has a rule that says how it is carried out. An action is `Quiet` if it
changes nothing, `Sure` if it cannot fail, and `Atomic` if it has changed nothing when it fails.
**Quiet steps in front and sure steps behind keep an action atomic.**
-/

namespace Flowchart

/-! ## Printing -/

/-- The progress after printing a text. -/
def Progress.printing (p : Progress) (text : String) : Progress :=
  { p with printed := p.printed ++ text }

/-- Two texts that are printed one after the other are printed as one. -/
theorem Progress.printing_printing (p : Progress) (a b : String) :
    (p.printing a).printing b = p.printing (a ++ b) := by
  simp only [printing, String.append_assoc]

/-- Printing the empty text changes nothing. -/
theorem Progress.printing_empty (p : Progress) : p.printing "" = p := by
  simp only [printing, String.append_empty]

/-- Each text in a line of its own. -/
def textLines (lines : List String) : String := String.join (lines.map fun line => line ++ "\n")

namespace Action

variable {α β : Type} {a : Action α} {f : α → Action β} {p q : Progress}

/-! ## Carrying out actions -/

/-- A first step that succeeds hands its result on, together with the progress it has made. -/
theorem perform_bind_of_ok {x : α} (h : a.perform p = (.ok x, q)) :
    (a >>= f).perform p = (f x).perform q := by
  simp only [perform, ExceptT.run_bind, StateT.run_bind] at *
  rw [h]
  rfl

/-- A first step that fails ends the action; what it has done until then stays done. -/
theorem perform_bind_of_error {e : Failure} (h : a.perform p = (.error e, q)) :
    (a >>= f).perform p = (.error e, q) := by
  simp only [perform, ExceptT.run_bind, StateT.run_bind] at *
  rw [h]
  rfl

/-- A result by itself changes nothing. -/
theorem perform_ofResult (result : Except Failure α) (p : Progress) :
    (ofResult result).perform p = (result, p) := by
  cases result <;> rfl

/-- Reading looks at the files as they are now. -/
theorem perform_reading (f : Files → Except Failure α) (p : Progress) :
    (reading f).perform p = (f p.files, p) := by
  have hget : (get : Action Progress).perform p = (.ok p, p) := rfl
  rw [reading, perform_bind_of_ok hget, perform_ofResult]

/-- Printing never fails. -/
theorem perform_print (text : String) (p : Progress) :
    (print text).perform p = (.ok (), p.printing text) := rfl

theorem perform_printLine (line : String) (p : Progress) :
    (printLine line).perform p = (.ok (), p.printing (line ++ "\n")) := rfl

/-- Lines that are printed one after the other are printed as one text. -/
theorem perform_forM_printLine (line : α → String) (items : List α) (p : Progress) :
    (items.forM fun a => printLine (line a)).perform p =
      (.ok (), p.printing (textLines (items.map line))) := by
  induction items generalizing p with
  | nil => rw [List.map_nil, textLines, List.map_nil, String.join_nil, p.printing_empty]; rfl
  | cons a rest ih =>
    show (printLine (line a) >>= fun _ => rest.forM fun a => printLine (line a)).perform p = _
    rw [perform_bind_of_ok (perform_printLine (line a) p), ih, Progress.printing_printing,
      textLines, textLines, List.map_cons, List.map_cons, String.join_cons]

/-! ## Actions that change nothing, or do not fail -/

/-- The action changes nothing, however it ends. -/
def Quiet (a : Action α) : Prop := ∀ p r q, a.perform p = (r, q) → q = p

/-- The action does not fail. -/
def Sure (a : Action α) : Prop := ∀ p, ∃ x q, a.perform p = (.ok x, q)

/-- If the action fails, it has changed nothing. -/
def Atomic (a : Action α) : Prop := ∀ p e q, a.perform p = (.error e, q) → q = p

/-- A result is quiet. -/
theorem quiet_ofResult (result : Except Failure α) : (ofResult result).Quiet := by
  intro p r q h
  rw [perform_ofResult] at h
  exact (congrArg Prod.snd h).symm

/-- Reading is quiet. -/
theorem quiet_reading (f : Files → Except Failure α) : (reading f).Quiet := by
  intro p r q h
  rw [perform_reading] at h
  exact (congrArg Prod.snd h).symm

theorem sure_pure (x : α) : (pure x : Action α).Sure := fun p => ⟨x, p, rfl⟩

/-- Printing is sure. -/
theorem sure_print (text : String) : (print text).Sure := fun p => ⟨(), _, perform_print text p⟩

/-- So is printing line by line. -/
theorem sure_forM_printLine (line : α → String) (items : List α) :
    (items.forM fun a => printLine (line a)).Sure :=
  fun p => ⟨(), _, perform_forM_printLine line items p⟩

/-- **Sure steps in sequence are sure.** -/
theorem Sure.bind (ha : a.Sure) (hf : ∀ x, (f x).Sure) : (a >>= f).Sure := by
  intro p
  obtain ⟨x, q, h⟩ := ha p
  rw [perform_bind_of_ok h]
  exact hf x q

/-- What cannot fail is atomic. -/
theorem Sure.atomic (ha : a.Sure) : a.Atomic := by
  intro p e q h
  obtain ⟨x, q', hok⟩ := ha p
  rw [hok] at h
  exact absurd (congrArg Prod.fst h) (by simp)

/-- Steps that change nothing may come first. -/
theorem Quiet.bind_atomic (ha : a.Quiet) (hf : ∀ x, (f x).Atomic) : (a >>= f).Atomic := by
  intro p e q h
  obtain ⟨r, p', hperform⟩ : ∃ r p', a.perform p = (r, p') := ⟨_, _, rfl⟩
  obtain rfl := ha p r p' hperform
  cases r with
  | ok x =>
    rw [perform_bind_of_ok hperform] at h
    exact hf x p' e q h
  | error e' =>
    rw [perform_bind_of_error hperform] at h
    exact (congrArg Prod.snd h).symm

/-- Steps that do not fail may come last. -/
theorem Atomic.bind_sure (ha : a.Atomic) (hf : ∀ x, (f x).Sure) : (a >>= f).Atomic := by
  intro p e q h
  obtain ⟨r, p', hperform⟩ : ∃ r p', a.perform p = (r, p') := ⟨_, _, rfl⟩
  cases r with
  | ok x =>
    rw [perform_bind_of_ok hperform] at h
    obtain ⟨y, q', hok⟩ := hf x p'
    rw [hok] at h
    exact absurd (congrArg Prod.fst h) (by simp)
  | error e' =>
    rw [perform_bind_of_error hperform, Prod.mk.injEq] at h
    obtain ⟨-, rfl⟩ := h
    exact ha p e' p' hperform

/-- A write that fails changes nothing. -/
theorem atomic_write (path text : String) : (write path text).Atomic := by
  refine (Quiet.bind_atomic (quiet_reading _) fun files => Sure.atomic ?_)
  exact fun p => ⟨(), { p with files := files }, rfl⟩

end Action

end Flowchart
