import Flowchart.Command.Run
import Flowchart.Proofs.Command.Action
import Mathlib.Data.List.Basic

/-!
# What a failed command leaves

A task only reads and computes before it prints or writes, and after that it cannot fail. So **a
task that fails leaves no output and no file behind**. Checks print as they go: what they leave are
the complete reports of the files before the first one that cannot be read.
-/

namespace Flowchart

open Flowchart.Action

/-! ## Settings -/

/-- What can be read is there. -/
theorem Files.hasEntry_of_read_eq_ok {fs : Files} {path text : String}
    (h : fs.read path = .ok text) : fs.hasEntry path = true := by
  rw [read] at h
  rw [hasEntry]
  cases hplace : fs.locate path with
  | error error => simp [hplace, bind, Except.bind] at h
  | ok place =>
    cases hentry : fs.entry place with
    | absent => simp [hplace, hentry, bind, Except.bind] at h
    | directory | file _ => simp [hentry]

/-- **An empty settings file leaves the defaults**, whatever reader the host has. -/
theorem Host.readSettings_of_empty {host : Host} {path : String}
    (h : host.files.read path = .ok "") : host.readSettings path = .ok {} := by
  rw [readSettings, if_pos (Files.hasEntry_of_read_eq_ok h), h]
  dsimp only
  rw [host.toml.read?_empty]
  rfl

/-! ## Tasks -/

theorem Output.atomic_deliver (output : Output) (settings : Settings) (d : Diagram)
    (fallback : Format) : (output.deliver settings d fallback).Atomic := by
  unfold deliver
  cases output.path with
  | some path => exact atomic_write path _
  | none => exact (sure_print _).atomic

/-- **A task that fails has changed nothing**: what can fail without a trace comes first. -/
theorem Task.atomic_run (settings : Settings) (task : Task) : (task.run settings).Atomic := by
  cases task with
  | convert input output =>
    refine (quiet_reading _).bind_atomic fun d => ?_
    exact (output.atomic_deliver settings _ _).bind_sure fun _ => sure_pure _
  | stats input =>
    refine (quiet_reading _).bind_atomic fun d => Sure.atomic ?_
    exact (sure_print _).bind fun _ => sure_pure _
  | simplify input keepIsolated output =>
    refine (quiet_reading _).bind_atomic fun d => ?_
    exact (output.atomic_deliver settings _ _).bind_sure fun _ => sure_pure _
  | diff old new verbose =>
    refine (quiet_reading _).bind_atomic fun old => (quiet_reading _).bind_atomic fun new => ?_
    exact ((sure_print _).bind fun _ => sure_pure _).atomic
  | extract input root depth output =>
    refine (quiet_reading _).bind_atomic fun d => (quiet_ofResult _).bind_atomic fun part => ?_
    exact (output.atomic_deliver settings _ _).bind_sure fun _ => sure_pure _
  | paths input start goal =>
    refine (quiet_reading _).bind_atomic fun d => (quiet_ofResult _).bind_atomic fun _ =>
      (quiet_ofResult _).bind_atomic fun _ => ?_
    exact ((sure_forM_printLine id _).bind fun _ => sure_pure _).atomic
  | order input =>
    refine (quiet_reading _).bind_atomic fun d => (quiet_ofResult _).bind_atomic fun ids => ?_
    exact ((sure_forM_printLine id ids).bind fun _ => sure_pure _).atomic

/-! ## Reports -/

variable {settings : Settings} {validator : Validator} {style : Bool} {input : Input}
  {p : Progress}

/-- The report of a file: a summary, and a line for each issue and each suggestion. -/
def Input.report (input : Input) (validator : Validator) (style : Bool) (d : Diagram) : String :=
  let issues := validator.issues d
  let suggestions := if style then Style.suggestions d else []
  textLines (checkSummary input.path (validator.accepts d) issues ::
    (issues ++ suggestions).map fun issue => "  " ++ issue.text)

/-- The check of a file that can be read prints its whole report. -/
theorem Input.perform_check_of_ok {d : Diagram} (h : input.diagram settings p.files = .ok d) :
    (input.check settings validator style).perform p =
      (.ok (validator.accepts d), p.printing (input.report validator style d)) := by
  have hread : (reading (input.diagram settings)).perform p = (.ok d, p) := by
    rw [perform_reading, h]
  rw [check, perform_bind_of_ok hread, perform_bind_of_ok (perform_printLine _ p),
    perform_bind_of_ok (perform_forM_printLine _ _ _), Progress.printing_printing, report,
    textLines, textLines, List.map_cons, String.join_cons]
  rfl

/-- The check of a file that cannot be read prints nothing. -/
theorem Input.perform_check_of_error {e : Failure} (h : input.diagram settings p.files = .error e) :
    (input.check settings validator style).perform p = (.error e, p) := by
  have hread : (reading (input.diagram settings)).perform p = (.error e, p) := by
    rw [perform_reading, h]
  rw [check, perform_bind_of_error hread]

/-! ## Checks one after the other -/

/-- Inputs that can be read, with their diagrams. -/
def AreRead (settings : Settings) (fs : Files) (reads : List (Input × Diagram)) : Prop :=
  ∀ r ∈ reads, r.1.diagram settings fs = .ok r.2

/-- The reports of inputs that can be read, one after the other. -/
def reports (validator : Validator) (style : Bool) (reads : List (Input × Diagram)) : String :=
  String.join (reads.map fun r => r.1.report validator style r.2)

/-- The outcome after more files. -/
def outcomeAfter (validator : Validator) (outcome : Outcome) (reads : List (Input × Diagram)) :
    Outcome :=
  reads.foldl (fun outcome r => if validator.accepts r.2 then outcome else .checksFailed) outcome

namespace Checks

variable {checks : Checks} {outcome : Outcome}

/-- **One check** prints the report of its file. -/
theorem perform_next_of_ok {d : Diagram} (h : input.diagram settings p.files = .ok d) :
    (checks.next settings validator outcome input).perform p =
      (.ok (if validator.accepts d then outcome else .checksFailed),
        p.printing (input.report validator checks.style d)) := by
  rw [next, perform_bind_of_ok (Input.perform_check_of_ok h)]
  rfl

theorem perform_next_of_error {e : Failure} (h : input.diagram settings p.files = .error e) :
    (checks.next settings validator outcome input).perform p = (.error e, p) := by
  rw [next, perform_bind_of_error (Input.perform_check_of_error h)]

section Loop

variable (checks : Checks) (validator : Validator) (outcome : Outcome)
  {reads : List (Input × Diagram)}

/-- **Checks of files that can be read** print the reports of all of them and go on. -/
theorem perform_foldlM_append (h : AreRead settings p.files reads) (rest : List Input) :
    ((reads.map Prod.fst ++ rest).foldlM (checks.next settings validator) outcome).perform p =
      (rest.foldlM (checks.next settings validator) (outcomeAfter validator outcome reads)).perform
        (p.printing (reports validator checks.style reads)) := by
  induction reads generalizing p outcome with
  | nil =>
    have hnone : p.printing (reports validator checks.style []) = p := p.printing_empty
    rw [hnone]
    rfl
  | cons r reads ih =>
    obtain ⟨hread, hreads⟩ := List.forall_mem_cons.1 h
    rw [List.map_cons, List.cons_append, List.foldlM_cons,
      perform_bind_of_ok (perform_next_of_ok hread)]
    have hrest := ih (if validator.accepts r.2 then outcome else .checksFailed)
      (show AreRead settings (p.printing (r.1.report validator checks.style r.2)).files reads
        from hreads)
    rw [hrest, Progress.printing_printing, outcomeAfter, outcomeAfter, List.foldl_cons, reports,
      reports, List.map_cons, String.join_cons]

/-- **A run of checks** that comes to its end prints all reports. -/
theorem perform_foldlM_of_areRead (h : AreRead settings p.files reads) :
    ((reads.map Prod.fst).foldlM (checks.next settings validator) outcome).perform p =
      (.ok (outcomeAfter validator outcome reads),
        p.printing (reports validator checks.style reads)) := by
  have hall := perform_foldlM_append checks validator outcome h []
  rw [List.append_nil] at hall
  exact hall

/-- A run of checks that comes to a file that cannot be read ends there. -/
theorem perform_foldlM_of_error {e : Failure} (h : AreRead settings p.files reads)
    (he : input.diagram settings p.files = .error e) (rest : List Input) :
    ((reads.map Prod.fst ++ input :: rest).foldlM (checks.next settings validator)
      outcome).perform p = (.error e, p.printing (reports validator checks.style reads)) := by
  rw [perform_foldlM_append checks validator outcome h, List.foldlM_cons]
  exact perform_bind_of_error (perform_next_of_error he)

end Loop

/-- All inputs can be read, or there is a first one that cannot. -/
theorem exists_areRead (settings : Settings) (fs : Files) (inputs : List Input) :
    (∃ reads, AreRead settings fs reads ∧ inputs = reads.map Prod.fst) ∨
      ∃ reads input rest e, AreRead settings fs reads ∧ input.diagram settings fs = .error e ∧
        inputs = reads.map Prod.fst ++ input :: rest := by
  induction inputs with
  | nil => exact Or.inl ⟨[], List.forall_mem_nil _, rfl⟩
  | cons first rest ih =>
    cases hfirst : first.diagram settings fs with
    | error e => exact Or.inr ⟨[], first, rest, e, List.forall_mem_nil _, hfirst, rfl⟩
    | ok d =>
      rcases ih with ⟨reads, hreads, rfl⟩ | ⟨reads, input, later, e, hreads, he, rfl⟩
      · exact Or.inl ⟨(first, d) :: reads, List.forall_mem_cons.2 ⟨hfirst, hreads⟩, rfl⟩
      · exact Or.inr
          ⟨(first, d) :: reads, input, later, e, List.forall_mem_cons.2 ⟨hfirst, hreads⟩, he, rfl⟩

end Checks

/-! ## The outcome of checks -/

theorem Validator.accepts_eq_false_iff {d : Diagram} :
    validator.accepts d = false ↔ ∃ issue ∈ validator.issues d, issue.severity = .error := by
  simp [accepts]

/-- Checks have failed exactly if a file has an error. -/
theorem outcomeAfter_eq_checksFailed_iff {outcome : Outcome} {reads : List (Input × Diagram)} :
    outcomeAfter validator outcome reads = .checksFailed ↔
      outcome = .checksFailed ∨ ∃ r ∈ reads, ∃ issue ∈ validator.issues r.2,
        issue.severity = .error := by
  induction reads generalizing outcome with
  | nil => simp [outcomeAfter]
  | cons r reads ih =>
    have hcons : outcomeAfter validator outcome (r :: reads) =
        outcomeAfter validator (if validator.accepts r.2 then outcome else .checksFailed) reads :=
      rfl
    rw [hcons, ih, List.exists_mem_cons_iff, ← Validator.accepts_eq_false_iff]
    cases validator.accepts r.2 <;> simp

/-- Going through a list fails exactly if one of its members does. -/
theorem exists_mapM_eq_error_iff {ε α β : Type} {f : α → Except ε β} {items : List α} :
    (∃ e, items.mapM f = .error e) ↔ ∃ a ∈ items, ∃ e, f a = .error e := by
  induction items with
  | nil => simp [pure, Except.pure]
  | cons a rest ih =>
    rw [List.exists_mem_cons_iff, List.mapM_cons]
    cases ha : f a with
    | error e => simp [bind, Except.bind]
    | ok b =>
      have hrest : (∃ e, (do let bs ← rest.mapM f; pure (b :: bs)) = Except.error e) ↔
          ∃ e, rest.mapM f = .error e := by
        cases rest.mapM f <;> simp [bind, Except.bind, pure, Except.pure]
      simp only [reduceCtorEq, exists_false, false_or]
      exact hrest.trans ih

/-- The rules to check by are refused exactly if one of their names is no rule. -/
theorem Checks.exists_validator_eq_error_iff {checks : Checks} :
    (∃ u, checks.validator = .error u) ↔
      ∃ name ∈ checks.rules, ∃ u, Rule.read name = .error u := by
  rw [Checks.validator]
  split
  · next hempty => simp [List.isEmpty_iff.1 hempty]
  · rw [← exists_mapM_eq_error_iff, Validator.ofNames]
    cases checks.rules.mapM Rule.read <;> simp [Except.map]

/-! ## What commands leave -/

/-- Checks ended at a file that cannot be read, behind the complete reports of those in front. -/
def Checks.StopsWith (checks : Checks) (settings : Settings) (fs : Files) (validator : Validator)
    (e : Failure) (printed : String) : Prop :=
  ∃ reads input rest, AreRead settings fs reads ∧ input.diagram settings fs = .error e ∧
    checks.inputs = reads.map Prod.fst ++ input :: rest ∧
    printed = reports validator checks.style reads

/-- Checks printed the complete reports of all files, and they failed if a file has an error. -/
def Checks.FinishesWith (checks : Checks) (settings : Settings) (fs : Files)
    (validator : Validator) (outcome : Outcome) (printed : String) : Prop :=
  ∃ reads, AreRead settings fs reads ∧ checks.inputs = reads.map Prod.fst ∧
    printed = reports validator checks.style reads ∧
    (outcome = .checksFailed ↔
      ∃ r ∈ reads, ∃ issue ∈ validator.issues r.2, issue.severity = .error)

/-- The files stay, and the checks stop or finish. -/
theorem Checks.perform_foldlM (checks : Checks) (settings : Settings) (validator : Validator)
    (fs : Files) :
    (∃ e printed, (checks.inputs.foldlM (checks.next settings validator) .success).perform
        { files := fs } = (.error e, { printed, files := fs }) ∧
        checks.StopsWith settings fs validator e printed) ∨
      ∃ outcome printed, (checks.inputs.foldlM (checks.next settings validator) .success).perform
        { files := fs } = (.ok outcome, { printed, files := fs }) ∧
        checks.FinishesWith settings fs validator outcome printed := by
  rcases exists_areRead settings fs checks.inputs with
    ⟨reads, hreads, hinputs⟩ | ⟨reads, input, rest, e, hreads, he, hinputs⟩
  · have hperform :=
      perform_foldlM_of_areRead checks validator .success (p := { files := fs }) hreads
    rw [← hinputs, Progress.printing, String.empty_append] at hperform
    refine Or.inr ⟨_, _, hperform, reads, hreads, hinputs, rfl, ?_⟩
    rw [outcomeAfter_eq_checksFailed_iff]
    simp only [reduceCtorEq, false_or]
  · have hperform :=
      perform_foldlM_of_error checks validator .success (p := { files := fs }) hreads he rest
    rw [← hinputs, Progress.printing, String.empty_append] at hperform
    exact Or.inl ⟨_, _, hperform, reads, input, rest, hreads, he, hinputs, rfl⟩

namespace Invocation

variable {i : Invocation} {host : Host}

/-- The settings are read from the files of the host. -/
theorem perform_reading_settings (i : Invocation) (host : Host) :
    (reading fun files => i.settings { host with files }).perform { files := host.files } =
      (i.settings host, { files := host.files }) :=
  perform_reading _ _

/-- A command line whose settings cannot be read does nothing. -/
theorem run_of_settings_eq_error {e : Failure} (h : i.settings host = .error e) :
    i.run host = { files := host.files, ending := .error e } := by
  have hread := i.perform_reading_settings host
  rw [h] at hread
  rw [run, action, perform_bind_of_error hread]

/-- Otherwise the command runs under its settings. -/
theorem run_of_settings_eq_ok {settings : Settings} (h : i.settings host = .ok settings) :
    i.run host =
      { ((i.command.run settings).perform { files := host.files }).2 with
        ending := ((i.command.run settings).perform { files := host.files }).1 } := by
  have hread := i.perform_reading_settings host
  rw [h] at hread
  rw [run, action, perform_bind_of_ok hread]

/-- A task that fails leaves nothing. -/
theorem run_task_of_error {task : Task} {e : Failure} (hcommand : i.command = .task task)
    (he : (i.run host).ending = .error e) :
    (i.run host).printed = "" ∧ (i.run host).files = host.files := by
  cases hsettings : i.settings host with
  | error failure =>
    rw [run_of_settings_eq_error hsettings]
    exact ⟨rfl, rfl⟩
  | ok settings =>
    rw [run_of_settings_eq_ok hsettings, hcommand] at he ⊢
    obtain ⟨r, q, hperform⟩ : ∃ r q, (task.run settings).perform { files := host.files } = (r, q) :=
      ⟨_, _, rfl⟩
    rw [Command.run, hperform] at he ⊢
    obtain rfl : r = .error e := he
    obtain rfl := task.atomic_run settings _ _ _ hperform
    exact ⟨rfl, rfl⟩

section Validate

variable {checks : Checks} {settings : Settings} (hcommand : i.command = .validate checks)
  (hsettings : i.settings host = .ok settings)

include hcommand hsettings

/-- Checks by a rule that does not exist do nothing. -/
theorem run_validate_of_validator_eq_error {u : Unsupported} (h : checks.validator = .error u) :
    i.run host = { files := host.files, ending := .error (.unsupported u) } := by
  have hvalidator : (ofResult (checks.validator.mapError Failure.unsupported)).perform
      { files := host.files } = (.error (.unsupported u), { files := host.files }) := by
    rw [perform_ofResult, h]
    rfl
  rw [run_of_settings_eq_ok hsettings, hcommand, Command.run, Checks.run,
    perform_bind_of_error hvalidator]

/-- Checks by rules that exist stop or finish. -/
theorem run_validate_of_validator_eq_ok (h : checks.validator = .ok validator) :
    (∃ e printed, i.run host = { printed, files := host.files, ending := .error e } ∧
        checks.StopsWith settings host.files validator e printed) ∨
      ∃ outcome printed, i.run host = { printed, files := host.files, ending := .ok outcome } ∧
        checks.FinishesWith settings host.files validator outcome printed := by
  have hvalidator : (ofResult (checks.validator.mapError Failure.unsupported)).perform
      { files := host.files } = (.ok validator, { files := host.files }) := by
    rw [perform_ofResult, h]
    rfl
  rw [run_of_settings_eq_ok hsettings, hcommand, Command.run, Checks.run,
    perform_bind_of_ok hvalidator]
  rcases checks.perform_foldlM settings validator host.files with
    ⟨e, printed, hperform, hstops⟩ | ⟨outcome, printed, hperform, hfinishes⟩
  · rw [hperform]
    exact Or.inl ⟨e, printed, rfl, hstops⟩
  · rw [hperform]
    exact Or.inr ⟨outcome, printed, rfl, hfinishes⟩

end Validate

/-- **A failing command changes nothing.** A task that fails has neither printed nor written. Checks
never write. They print nothing if the settings cannot be read or a rule does not exist. If they
fail otherwise, they have printed the complete reports of the files in front of the first one that
cannot be read. If they do not fail, the outcome tells whether a file has an error. -/
theorem run_isAtomic (i : Invocation) (host : Host) :
    (∀ task, i.command = .task task → ∀ e, (i.run host).ending = .error e →
        (i.run host).printed = "" ∧ (i.run host).files = host.files) ∧
      ∀ checks, i.command = .validate checks →
        (i.run host).files = host.files ∧
        (∀ e, i.settings host = .error e →
          (i.run host).ending = .error e ∧ (i.run host).printed = "") ∧
        ((∃ u, checks.validator = .error u) ↔
          ∃ name ∈ checks.rules, ∃ u, Rule.read name = .error u) ∧
        ∀ settings, i.settings host = .ok settings →
          (∀ u, checks.validator = .error u →
            (i.run host).ending = .error (.unsupported u) ∧ (i.run host).printed = "") ∧
          ∀ validator, checks.validator = .ok validator →
            (∀ e, (i.run host).ending = .error e →
              checks.StopsWith settings host.files validator e (i.run host).printed) ∧
            ∀ outcome, (i.run host).ending = .ok outcome →
              checks.FinishesWith settings host.files validator outcome (i.run host).printed := by
  constructor
  · exact fun task hcommand e he => run_task_of_error hcommand he
  intro checks hcommand
  refine ⟨?_, ?_, checks.exists_validator_eq_error_iff, ?_⟩
  · cases hsettings : i.settings host with
    | error e => rw [run_of_settings_eq_error hsettings]
    | ok settings =>
      cases hvalidator : checks.validator with
      | error u => rw [run_validate_of_validator_eq_error hcommand hsettings hvalidator]
      | ok validator =>
        rcases run_validate_of_validator_eq_ok hcommand hsettings hvalidator with
          ⟨e, printed, hrun, -⟩ | ⟨outcome, printed, hrun, -⟩ <;> rw [hrun]
  · intro e hsettings
    rw [run_of_settings_eq_error hsettings]
    exact ⟨rfl, rfl⟩
  · intro settings hsettings
    constructor
    · intro u hvalidator
      rw [run_validate_of_validator_eq_error hcommand hsettings hvalidator]
      exact ⟨rfl, rfl⟩
    · intro validator hvalidator
      rcases run_validate_of_validator_eq_ok hcommand hsettings hvalidator with
        ⟨e, printed, hrun, hstops⟩ | ⟨outcome, printed, hrun, hfinishes⟩
      · rw [hrun]
        refine ⟨fun e' he' => ?_, fun outcome hok => absurd hok (by simp)⟩
        obtain rfl : e = e' := Except.error.inj he'
        exact hstops
      · rw [hrun]
        refine ⟨fun e herror => absurd herror (by simp), fun outcome' hok => ?_⟩
        obtain rfl : outcome = outcome' := Except.ok.inj hok
        exact hfinishes

/-- A host with an empty file, one that is no text, settings that must not be read, and settings of
the user. -/
def halfReadable : Host where
  files :=
    { contents :=
        [(["work", "first.d2"], "".toUTF8), (["work", "second.d2"], ⟨#[0xFF]⟩),
          (["work", "secret.toml"], "".toUTF8),
          (["home", "config.toml"], "[render]\ndirection = \"LR\"\n".toUTF8)]
      current := ["work"]
      refusal? := fun access place =>
        if access = .read ∧ place = ["work", "secret.toml"] then
          some "Permission denied (os error 13)"
        else none }
  toml := Toml.reader
  userSettingsPath? := some "/home/config.toml"

/-- Both files. -/
def firstAndSecond : Checks where
  inputs := [⟨"first.d2", some (.structured .d2)⟩, ⟨"second.d2", some (.structured .d2)⟩]
  rules := ["max-nodes-1"]
  style := false

/-- The paths between two nodes that the first file does not have. -/
def pathsInFirst : Task := .paths ⟨"first.d2", some (.structured .d2)⟩ "a" "b"

theorem run_isAtomic_halfReadable :
    (run { command := .task pathsInFirst } halfReadable).ending =
        .error (.diagram (.unknownNode "a")) ∧
      (run { command := .task pathsInFirst } halfReadable).printed = "" ∧
      (run { command := .validate firstAndSecond } halfReadable).ending = .error (.file .notText) ∧
      firstAndSecond.StopsWith { direction := some .leftRight } halfReadable.files ⟨[.maxNodes 1]⟩
        (.file .notText) (run { command := .validate firstAndSecond } halfReadable).printed ∧
      (run { command := .validate firstAndSecond, settingsPath := some "secret.toml" }
        halfReadable).ending = .error (.file (.refused "Permission denied (os error 13)")) := by
  have htask : (run { command := .task pathsInFirst } halfReadable).ending =
      .error (.diagram (.unknownNode "a")) := by decide +kernel
  have hchecks : (run { command := .validate firstAndSecond } halfReadable).ending =
      .error (.file .notText) := by decide +kernel
  have hvalidator : firstAndSecond.validator = .ok ⟨[.maxNodes 1]⟩ := by decide +kernel
  obtain ⟨hfails, -⟩ := run_isAtomic { command := .task pathsInFirst } halfReadable
  obtain ⟨-, hvalidate⟩ := run_isAtomic { command := .validate firstAndSecond } halfReadable
  obtain ⟨-, -, -, hstops⟩ := hvalidate firstAndSecond rfl
  obtain ⟨-, hends⟩ := hstops { direction := some .leftRight } (by decide +kernel)
  obtain ⟨-, hsecret⟩ :=
    run_isAtomic { command := .validate firstAndSecond, settingsPath := some "secret.toml" }
      halfReadable
  obtain ⟨-, hsettings, -⟩ := hsecret firstAndSecond rfl
  exact ⟨htask, (hfails pathsInFirst rfl _ htask).1, hchecks, (hends _ hvalidator).1 _ hchecks,
    (hsettings _ (by decide +kernel)).1⟩

end Invocation

end Flowchart
