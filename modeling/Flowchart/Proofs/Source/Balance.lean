import Flowchart.Proofs.Source.Places
import Flowchart.Proofs.Source.Strings

/-!
# Balanced texts and their statements

A text is *balanced* if every string in it is closed on the line on which it was opened and the
brackets outside strings are properly nested. The cutter keeps a stack of the closers that are due.
This module shows that

* **the cutter accepts exactly the balanced texts** (`cutThrough_eq_ok_iff`);
* a separator ends a statement exactly where the text in front of it is balanced;
* hence the statements stand in the text one behind the other, with nothing but blanks and separators
  between them, and every one is separated from the one before it.
-/

namespace Flowchart

open Text (byteSize isBlank)

namespace Conventions

variable {k : Conventions}

/-! ## Brackets -/

/-- What closes the bracket that this character opens. Where several brackets have the same opener,
the first of them counts. -/
def closer? (k : Conventions) (c : Char) : Option Char := (k.brackets.find? (·.1 = c)).map Prod.snd

/-- Every bracket is closed by its own closer, and no closer stands alone. A character that opens a
bracket closes none. -/
inductive Nested (k : Conventions) : List Char → Prop
  | nil : Nested k []
  | other {c : Char} {cs : List Char} : k.isBracket c = false → Nested k cs → Nested k (c :: cs)
  | group {opener closer : Char} {inner rest : List Char} : k.closer? opener = some closer →
      k.closer? closer = none → Nested k inner → Nested k rest →
      Nested k (opener :: (inner ++ closer :: rest))

/-- A character opens nothing exactly if no bracket begins with it. -/
theorem closer?_eq_none_iff {c : Char} :
    k.closer? c = none ↔ (k.brackets.any fun b => b.1 = c) = false := by
  rw [closer?, Option.map_eq_none_iff, List.find?_eq_none, List.any_eq_false]

/-- A character is no bracket exactly if it neither opens nor closes anything. -/
theorem isBracket_eq_false_iff {c : Char} :
    k.isBracket c = false ↔ k.closer? c = none ∧ (k.brackets.any fun b => b.2 = c) = false := by
  rw [closer?_eq_none_iff, isBracket, List.any_eq_false, List.any_eq_false, List.any_eq_false,
    ← forall₂_and]
  simp only [Bool.or_eq_true, not_or]

/-! ## The stack of closers -/

/-- The closers that are due behind a character outside strings, the innermost first; nothing if the
character closes what is not open. -/
def dueBehind? (k : Conventions) (due : List Char) (c : Char) : Option (List Char) :=
  match k.closer? c with
  | some closer => some (closer :: due)
  | none =>
    if k.brackets.any fun b => b.2 = c then
      if due.head? = some c then some due.tail else none
    else some due

variable {due due' : List Char} {c : Char}

/-- An opener makes its closer due. -/
theorem dueBehind?_of_closer {closer : Char} (h : k.closer? c = some closer) :
    k.dueBehind? due c = some (closer :: due) := by
  rw [dueBehind?, h]

/-- A closer takes itself off the stack. -/
theorem dueBehind?_of_closes (hopens : k.closer? c = none)
    (hcloses : (k.brackets.any fun b => b.2 = c) = true) :
    k.dueBehind? due c = if due.head? = some c then some due.tail else none := by
  simp only [dueBehind?, hopens, hcloses, if_true]

/-- Other characters leave what is due. -/
theorem dueBehind?_of_other (h : k.isBracket c = false) : k.dueBehind? due c = some due := by
  obtain ⟨hopens, hcloses⟩ := isBracket_eq_false_iff.1 h
  simp only [dueBehind?, hopens, hcloses, Bool.false_eq_true, if_false]

/-- The closer of an opener is a closer. -/
theorem any_closer_of_closer? {opener closer : Char} (h : k.closer? opener = some closer) :
    (k.brackets.any fun b => b.2 = closer) = true := by
  obtain ⟨b, hb, rfl⟩ := Option.map_eq_some_iff.1 h
  exact List.any_eq_true.2 ⟨b, List.mem_of_find?_eq_some hb, decide_eq_true rfl⟩

/-- What a character outside strings can be. -/
theorem dueBehind?_cases (h : k.dueBehind? due c = some due') :
    (∃ closer, k.closer? c = some closer ∧ due' = closer :: due) ∨
      (k.closer? c = none ∧ due = c :: due') ∨ (k.isBracket c = false ∧ due' = due) := by
  unfold dueBehind? at h
  split at h
  · next closer hcloser => exact Or.inl ⟨closer, hcloser, (Option.some.inj h).symm⟩
  · next hopens =>
    split at h
    · split at h
      · next hhead =>
        obtain rfl := Option.some.inj h
        exact Or.inr (Or.inl ⟨hopens, (List.cons_head?_tail hhead).symm⟩)
      · exact absurd h (by simp)
    · next hcloses =>
      exact Or.inr (Or.inr ⟨isBracket_eq_false_iff.2 ⟨hopens, eq_false_of_ne_true hcloses⟩,
        (Option.some.inj h).symm⟩)

/-- Nested brackets leave the stack as it was. -/
theorem Nested.foldlM_eq {text : List Char} (h : Nested k text) (due : List Char) :
    text.foldlM k.dueBehind? due = some due := by
  induction h generalizing due with
  | nil => rfl
  | other hc _ ih => rw [foldlM_cons_of_some (dueBehind?_of_other hc), ih]
  | @group opener closer inner rest hopener hcloser _ _ ihinner ihrest =>
    have hpop : k.dueBehind? (closer :: due) closer = some due := by
      rw [dueBehind?_of_closes hcloser (any_closer_of_closer? hopener), List.head?_cons, if_pos rfl,
        List.tail_cons]
    rw [foldlM_cons_of_some (dueBehind?_of_closer hopener), List.foldlM_append, ihinner,
      Option.bind_eq_bind, Option.bind_some, foldlM_cons_of_some hpop, ihrest]

/-- The text closes the brackets of which the closers are due, one after the other, and is properly
nested in between. -/
inductive Unwinds (k : Conventions) : (due text : List Char) → Prop
  | last {text : List Char} : Nested k text → Unwinds k [] text
  | close {closer : Char} {due text rest : List Char} : Nested k text → k.closer? closer = none →
      Unwinds k due rest → Unwinds k (closer :: due) (text ++ closer :: rest)

namespace Unwinds

variable {text : List Char}

/-- What unwinds still does so behind a character that is no bracket. -/
theorem other (hc : k.isBracket c = false) (h : Unwinds k due text) : Unwinds k due (c :: text) := by
  cases h with
  | last hnested => exact .last (.other hc hnested)
  | close hnested hcloser hrest => exact .close (.other hc hnested) hcloser hrest

/-- With an opener in front, one closer less is due. -/
theorem group {closer : Char} (hc : k.closer? c = some closer) (h : Unwinds k (closer :: due) text) :
    Unwinds k due (c :: text) := by
  cases h with
  | close hinner hcloser hrest =>
    cases hrest with
    | last hnested => exact .last (.group hc hcloser hinner hnested)
    | close hnested hnext hlater =>
      rw [← List.cons_append, ← List.cons_append, ← List.append_assoc]
      exact .close (.group hc hcloser hinner hnested) hnext hlater

/-- Going through a text until nothing is due unwinds it. -/
theorem of_foldlM (h : text.foldlM k.dueBehind? due = some []) : Unwinds k due text := by
  induction text generalizing due with
  | nil =>
    obtain rfl : due = [] := by simpa using h
    exact .last .nil
  | cons c cs ih =>
    obtain ⟨mid, hmid, hrest⟩ := foldlM_cons_eq_some_iff.1 h
    rcases dueBehind?_cases hmid with ⟨closer, hcloser, rfl⟩ | ⟨hopens, rfl⟩ | ⟨hc, rfl⟩
    · exact (ih hrest).group hcloser
    · exact .close .nil hopens (ih hrest)
    · exact (ih hrest).other hc

end Unwinds

/-- **The stack is empty behind exactly the properly nested brackets.** -/
theorem nested_iff {text : List Char} : Nested k text ↔ text.foldlM k.dueBehind? [] = some [] := by
  refine ⟨fun h => h.foldlM_eq [], fun h => ?_⟩
  cases Unwinds.of_foldlM h with
  | last hnested => exact hnested

/-! ## Strings and brackets -/

/-- What stands outside the strings of a text, each of which is closed on the line on which it was
opened. -/
inductive Outside (k : Conventions) : (text outside : List Char) → Prop
  | nil : Outside k [] []
  | char {c : Char} {cs outside : List Char} : c ≠ '"' → Outside k cs outside →
      Outside k (c :: cs) (c :: outside)
  | string {body cs outside : List Char} : k.staysQuoted false body = true → Outside k cs outside →
      Outside k ('"' :: (body ++ '"' :: cs)) outside

/-- **The text is balanced**: its strings are closed, and the brackets outside them properly
nested. -/
def IsBalanced (k : Conventions) (text : List Char) : Prop :=
  ∃ outside, Outside k text outside ∧ Nested k outside

variable {pos : Nat} {state : CutState}

/-- The closers that are due, without the places of their openers. -/
def CutState.closers (state : CutState) : List Char := state.due.map Prod.fst

/-- Outside strings and brackets a cut is as at its start. -/
theorem CutState.eq_empty (hquote : state.quote = none) (hdue : state.closers = []) : state = {} := by
  obtain ⟨quote, due⟩ := state
  obtain rfl : quote = none := hquote
  obtain rfl : due = [] := List.map_eq_nil_iff.1 hdue
  rfl

/-- **Outside strings the cutter follows the stack of closers**, and it cuts at a separator if the
stack is empty. -/
theorem cutStep_outside (hquote : state.quote = none) (hc : c ≠ '"') :
    Yields (k.cutStep pos state c)
      (fun next => (next.1.quote = none ∧ k.dueBehind? state.closers c = some next.1.closers) ∧
        (next.2 = true ↔ (k.isSeparator c = true ∧ k.isBracket c = false) ∧ state.due = []))
      fun _ => k.dueBehind? state.closers c = none := by
  unfold cutStep
  split
  · next openedAt escaped hopened =>
    rw [hquote] at hopened
    exact absurd hopened (by simp)
  rw [if_neg hc]
  split
  · next opener closer hfind =>
    have hcloser : k.closer? c = some closer := by rw [closer?, hfind, Option.map_some]
    have hbracket : k.isBracket c ≠ false := fun hno => by
      rw [(isBracket_eq_false_iff.1 hno).1] at hcloser
      exact absurd hcloser (by simp)
    exact .of_ok ⟨⟨hquote, dueBehind?_of_closer hcloser⟩, by simp [hbracket]⟩
  · next hfind =>
    have hopens : k.closer? c = none := by rw [closer?, hfind, Option.map_none]
    split
    · next hcloses =>
      have hbracket : k.isBracket c ≠ false := fun hno => by
        rw [(isBracket_eq_false_iff.1 hno).2] at hcloses
        exact Bool.false_ne_true hcloses
      rw [dueBehind?_of_closes hopens hcloses, CutState.closers]
      split
      · next hnil => exact .of_error (by rw [hnil]; rfl)
      · next expected openedAt due hcons =>
        rw [hcons, List.map_cons, List.head?_cons]
        split
        · next heq => exact .of_ok ⟨⟨hquote, by rw [heq, if_pos rfl]; rfl⟩, by simp [hbracket]⟩
        · next hne => exact .of_error (if_neg fun heq => hne (Option.some.inj heq))
    · next hcloses =>
      have hbracket : k.isBracket c = false :=
        isBracket_eq_false_iff.2 ⟨hopens, eq_false_of_ne_true hcloses⟩
      refine .of_ok ⟨⟨hquote, dueBehind?_of_other hbracket⟩, ?_⟩
      rw [Bool.and_eq_true, List.isEmpty_iff, and_comm (a := state.due = [])]
      simp only [hbracket, and_true]

/-- Where the strings of a text are closed and the stack allows its brackets, the cutter gets through. -/
theorem exists_cutThrough {text outside : List Char} (h : Outside k text outside) (pos : Nat)
    (hquote : state.quote = none) (hdue : outside.foldlM k.dueBehind? state.closers = some due') :
    ∃ next, k.cutThrough pos state text = .ok next ∧ next.quote = none ∧ next.closers = due' := by
  induction h generalizing pos state with
  | nil => exact ⟨state, rfl, hquote, Option.some.inj hdue⟩
  | @char c cs outside hc _ ih =>
    obtain ⟨mid, hmid, hrest⟩ := foldlM_cons_eq_some_iff.1 hdue
    have hyields : Yields (k.cutStep pos state c) _ _ := cutStep_outside hquote hc
    cases hstep : k.cutStep pos state c with
    | error imbalance =>
      rw [hyields.error _ hstep] at hmid
      exact absurd hmid (by simp)
    | ok result =>
      obtain ⟨next, ends⟩ := result
      obtain ⟨⟨hnext, hclosers⟩, -⟩ := hyields.ok _ hstep
      obtain rfl := Option.some.inj (hmid.symm.trans hclosers)
      rw [cutThrough_cons_of_ok hstep]
      exact ih _ hnext hrest
  | @string body cs outside hbody _ ih =>
    have hstring : k.cutThrough pos state ('"' :: (body ++ ['"'])) = .ok state :=
      cutThrough_string hquote hbody
    rw [List.append_cons, ← List.cons_append, cutThrough_append hstring]
    exact ih _ hquote hdue

/-- **Where the cutter gets through to the outside of strings, the strings of the text are closed and
the stack allows its brackets.** A text that begins inside a string first closes it. -/
theorem outside_of_cutThrough {text : List Char} {next : CutState}
    (h : k.cutThrough pos state text = .ok next) (hnext : next.quote = none) :
    (state.quote = none → ∃ outside, Outside k text outside ∧
      outside.foldlM k.dueBehind? state.closers = some next.closers) ∧
    ∀ openedAt escaped, state.quote = some (openedAt, escaped) →
      ∃ body rest outside, text = body ++ '"' :: rest ∧
        body.foldlM k.stringStep? escaped = some false ∧ Outside k rest outside ∧
        outside.foldlM k.dueBehind? state.closers = some next.closers := by
  -- both halves at once: outside a quote opens the other one, inside it opens this one again
  induction text generalizing pos state with
  | nil =>
    obtain rfl : state = next := Except.ok.inj h
    refine ⟨fun _ => ⟨[], .nil, rfl⟩, fun openedAt escaped hquote => ?_⟩
    rw [hnext] at hquote
    exact absurd hquote (by simp)
  | cons c cs ih =>
    constructor
    · intro hquote
      by_cases hc : c = '"'
      · obtain rfl := hc
        rw [cutThrough_cons_of_ok (cutStep_opening hquote)] at h
        obtain ⟨body, rest, outside, rfl, hbody, houtside, hdue⟩ := (ih h).2 _ _ rfl
        exact ⟨outside, .string (staysQuoted_iff.2 hbody) houtside, hdue⟩
      · have hyields : Yields (k.cutStep pos state c) _ _ := cutStep_outside hquote hc
        cases hstep : k.cutStep pos state c with
        | error imbalance =>
          rw [cutThrough_cons_of_error hstep] at h
          exact absurd h (by simp)
        | ok result =>
          obtain ⟨mid, ends⟩ := result
          obtain ⟨⟨hmid, hclosers⟩, -⟩ := hyields.ok _ hstep
          rw [cutThrough_cons_of_ok hstep] at h
          obtain ⟨outside, houtside, hdue⟩ := (ih h).1 hmid
          exact ⟨c :: outside, .char hc houtside, (foldlM_cons_of_some hclosers outside).trans hdue⟩
    · intro openedAt escaped hquote
      cases hstep : k.stringStep? escaped c with
      | some flag =>
        rw [cutThrough_cons_of_ok (cutStep_of_stringStep? hquote hstep _)] at h
        obtain ⟨body, rest, outside, rfl, hbody, houtside, hdue⟩ := (ih h).2 _ _ rfl
        exact ⟨c :: body, rest, outside, rfl, (foldlM_cons_of_some hstep body).trans hbody, houtside,
          hdue⟩
      | none =>
        rcases stringStep?_eq_none_iff.1 hstep with rfl | ⟨rfl, rfl⟩
        · rw [cutThrough_cons_of_error (cutStep_feed hquote)] at h
          exact absurd h (by simp)
        · rw [cutThrough_cons_of_ok (cutStep_quote hquote _)] at h
          obtain ⟨outside, houtside, hdue⟩ := (ih h).1 rfl
          exact ⟨[], cs, outside, rfl, rfl, houtside, hdue⟩

/-- **The cutter ends where it began behind exactly the balanced texts.** -/
theorem cutThrough_eq_ok_iff (pos : Nat) {text : List Char} :
    k.cutThrough pos {} text = .ok {} ↔ k.IsBalanced text := by
  constructor
  · intro h
    obtain ⟨outside, houtside, hdue⟩ := (outside_of_cutThrough h rfl).1 rfl
    exact ⟨outside, houtside, nested_iff.2 hdue⟩
  · rintro ⟨outside, houtside, hnested⟩
    have hstart : ({} : CutState).quote = none := rfl
    obtain ⟨next, hnext, hquote, hdue⟩ :=
      exists_cutThrough houtside pos hstart (nested_iff.1 hnested)
    rw [hnext, CutState.eq_empty hquote hdue]

/-- Balance is decided by running the cutter. -/
instance (k : Conventions) (text : List Char) : Decidable (k.IsBalanced text) :=
  decidable_of_iff _ (cutThrough_eq_ok_iff 0)

/-- A bracket in a string neither opens nor closes anything. -/
example : IsBalanced { brackets := [('{', '}')] } ['{', '"', '}', '"', ';', '}'] := by decide

/-! ## Ends of statements -/

/-- Behind this text the character ends a statement: it is a separator, and it stands outside strings
and brackets. -/
structure EndsStatement (k : Conventions) (before : List Char) (c : Char) : Prop where
  separator : k.isSeparator c = true
  not_bracket : k.isBracket c = false
  balanced : k.IsBalanced before

/-- Behind the text `before` no character of this part ends a statement. -/
def IsUncut (k : Conventions) (before part : List Char) : Prop :=
  ∀ front c back, part = front ++ c :: back → ¬k.EndsStatement (before ++ front) c

namespace IsUncut

variable {before front part back : List Char}

/-- Where nothing comes, nothing is cut. -/
theorem nil (before : List Char) : k.IsUncut before [] := by
  intro front c back h
  exact absurd h.symm (by simp)

/-- One character more stays uncut if no statement ends there. -/
theorem cons (hc : ¬k.EndsStatement before c) (h : k.IsUncut (before ++ [c]) part) :
    k.IsUncut before (c :: part) := by
  intro front d back heq
  cases front with
  | nil =>
    obtain rfl : c = d := (List.cons_eq_cons.1 heq).1
    rwa [List.append_nil]
  | cons e front =>
    obtain ⟨rfl, hpart⟩ := List.cons_eq_cons.1 heq
    rw [List.append_cons]
    exact h front d back hpart

/-- A part of what is uncut is uncut behind what stands in front of it. -/
theorem inner (h : k.IsUncut before (front ++ (part ++ back))) : k.IsUncut (before ++ front) part := by
  rintro a c b rfl
  rw [List.append_assoc]
  exact h (front ++ a) c (b ++ back) (by simp)

/-- So is a part at the left. -/
theorem left (h : k.IsUncut before (part ++ back)) : k.IsUncut before part := by
  rw [← List.append_nil before]
  exact inner h

end IsUncut

/-- The cutter cuts at a separator, where nothing is open. -/
theorem cutStep_ends_iff {next : CutState} {ends : Bool}
    (h : k.cutStep pos state c = .ok (next, ends)) :
    ends = true ↔ (k.isSeparator c = true ∧ k.isBracket c = false) ∧ state = {} := by
  have hnever : (state ≠ {} ∨ k.isSeparator c = false) → ends = false → (ends = true ↔
      (k.isSeparator c = true ∧ k.isBracket c = false) ∧ state = {}) := by
    rintro hno rfl
    refine ⟨fun h => absurd h Bool.false_ne_true, fun ⟨⟨hsep, _⟩, hstate⟩ => ?_⟩
    rw [hsep, hstate] at hno
    simp at hno
  cases hquote : state.quote with
  | some opened =>
    obtain ⟨openedAt, escaped⟩ := opened
    have hstate : state ≠ {} := by
      rintro rfl
      exact absurd hquote (by simp)
    refine hnever (Or.inl hstate) ?_
    cases hstep : k.stringStep? escaped c with
    | some flag =>
      rw [cutStep_of_stringStep? hquote hstep] at h
      exact (Prod.mk.inj (Except.ok.inj h)).2.symm
    | none =>
      rcases stringStep?_eq_none_iff.1 hstep with rfl | ⟨rfl, rfl⟩
      · rw [cutStep_feed hquote] at h
        exact absurd h (by simp)
      · rw [cutStep_quote hquote] at h
        exact (Prod.mk.inj (Except.ok.inj h)).2.symm
  | none =>
    by_cases hc : c = '"'
    · obtain rfl := hc
      rw [cutStep_opening hquote] at h
      exact hnever (Or.inr (by simp [isSeparator])) (Prod.mk.inj (Except.ok.inj h)).2.symm
    · rw [((cutStep_outside hquote hc).ok _ h).2]
      refine and_congr_right fun _ => ⟨fun hdue => ?_, fun hstate => by rw [hstate]⟩
      exact CutState.eq_empty hquote (by rw [CutState.closers, hdue, List.map_nil])

/-- **The cutter cuts at the ends of statements.** -/
theorem cutStep_ends_iff_endsStatement {base : Nat} {before : List Char} {next : CutState} {ends : Bool}
    (hbefore : k.cutThrough base {} before = .ok state)
    (h : k.cutStep pos state c = .ok (next, ends)) : ends = true ↔ k.EndsStatement before c := by
  have hbalanced : state = {} ↔ k.IsBalanced before := by
    rw [← cutThrough_eq_ok_iff base, hbefore, Except.ok.injEq]
  rw [cutStep_ends_iff h, hbalanced]
  exact ⟨fun ⟨⟨hsep, hbracket⟩, hbefore⟩ => ⟨hsep, hbracket, hbefore⟩,
    fun h => ⟨⟨h.separator, h.not_bracket⟩, h.balanced⟩⟩

/-! ## Pieces -/

/-- A text behind `before` in pieces: the one up to the first end of a statement, and the later ones
at their offsets. -/
inductive ArePieces (k : Conventions) (base : Nat) :
    (before text piece : List Char) → (later : List Statement) → Prop
  | last {before text : List Char} : k.IsUncut before text → ArePieces k base before text text []
  | cut {before piece rest next : List Char} {c : Char} {later : List Statement} :
      k.IsUncut before piece → k.EndsStatement (before ++ piece) c →
      ArePieces k base (before ++ (piece ++ [c])) rest next later →
      ArePieces k base before (piece ++ c :: rest) piece
        (⟨next, base + byteSize (before ++ (piece ++ [c]))⟩ :: later)

/-- A character that ends no statement belongs to the first piece. -/
theorem ArePieces.cons {base : Nat} {before text piece : List Char} {later : List Statement}
    (hc : ¬k.EndsStatement before c) (h : ArePieces k base (before ++ [c]) text piece later) :
    ArePieces k base before (c :: text) (c :: piece) later := by
  cases h with
  | last huncut => exact .last (.cons hc huncut)
  | @cut _ piece rest next d later huncut hends hrest =>
    have hfront : ∀ cs, before ++ [c] ++ cs = before ++ (c :: cs) := by simp
    rw [hfront] at hends hrest ⊢
    exact .cut (.cons hc huncut) hends hrest

/-- The state in which a text may end. -/
theorem cutEnd_eq_ok_iff (pos : Nat) : cutEnd pos state = .ok () ↔ state = {} := by
  obtain ⟨quote, due⟩ := state
  cases quote with
  | some opened => simp [cutEnd]
  | none => cases due <;> simp [cutEnd]

/-- A text is cut if the cutter gets through to its end. -/
theorem exists_cut_iff {text : List Char} :
    (∃ result, k.cut pos state text = .ok result) ↔ k.cutThrough pos state text = .ok {} := by
  induction text generalizing pos state with
  | nil =>
    rw [cutThrough, Except.ok.injEq, ← cutEnd_eq_ok_iff pos, cut]
    cases cutEnd pos state <;> simp
  | cons c cs ih =>
    rw [cut, cutThrough]
    cases k.cutStep pos state c with
    | error imbalance => simp
    | ok next =>
      dsimp only
      rw [← ih]
      cases k.cut (pos + c.utf8Size) next.1 cs with
      | error imbalance => simp
      | ok result =>
        refine iff_of_true ?_ ⟨result, rfl⟩
        cases next.2
        · exact ⟨_, rfl⟩
        · exact ⟨_, rfl⟩

/-- What was cut, one character earlier. -/
theorem exists_of_cut_cons {cs piece : List Char} {later : List Statement}
    (h : k.cut pos state (c :: cs) = .ok (piece, later)) :
    ∃ next ends piece' later', k.cutStep pos state c = .ok (next, ends) ∧
      k.cut (pos + c.utf8Size) next cs = .ok (piece', later') ∧
      (piece, later) =
        if ends then ([], ⟨piece', pos + c.utf8Size⟩ :: later') else (c :: piece', later') := by
  rw [cut] at h
  split at h
  · exact absurd h (by simp)
  · next next ends hstep =>
    split at h
    · exact absurd h (by simp)
    · next piece' later' hcut =>
      refine ⟨next, ends, piece', later', hstep, hcut, ?_⟩
      cases ends <;> exact (Except.ok.inj h).symm

/-- **The cutter gives the pieces between the ends of statements.** -/
theorem arePieces_of_cut {base : Nat} {before text piece : List Char} {later : List Statement}
    (hbefore : k.cutThrough base {} before = .ok state)
    (h : k.cut (base + byteSize before) state text = .ok (piece, later)) :
    ArePieces k base before text piece later := by
  induction text generalizing before state piece later with
  | nil =>
    rw [cut] at h
    split at h
    · obtain ⟨rfl, rfl⟩ := Prod.mk.inj (Except.ok.inj h)
      exact .last (.nil before)
    · exact absurd h (by simp)
  | cons c cs ih =>
    obtain ⟨next, ends, piece', later', hstep, hcut, hresult⟩ := exists_of_cut_cons h
    have hends := cutStep_ends_iff_endsStatement hbefore hstep
    have hsize : base + byteSize before + c.utf8Size = base + byteSize (before ++ [c]) := by
      rw [Text.byteSize_append, Text.byteSize_cons, Text.byteSize_nil]
      omega
    have hthrough : k.cutThrough base {} (before ++ [c]) = .ok next := by
      rw [cutThrough_append hbefore, cutThrough_cons_of_ok hstep, cutThrough]
    rw [hsize] at hcut hresult
    have hrest := ih hthrough hcut
    cases ends with
    | false =>
      obtain ⟨rfl, rfl⟩ := Prod.mk.inj hresult
      exact hrest.cons fun hc => Bool.false_ne_true (hends.2 hc)
    | true =>
      obtain ⟨rfl, rfl⟩ := Prod.mk.inj hresult
      have hcut : k.EndsStatement (before ++ []) c := by
        rw [List.append_nil]
        exact hends.1 rfl
      exact .cut (.nil before) hcut hrest

/-! ## Statements -/

/-- The character may stand between statements. -/
def isGap (k : Conventions) (c : Char) : Bool := isBlank c || (k.semicolons && c = ';')

/-- The text of a statement behind `before`: it is not empty, no blanks stand at its ends, and
nothing in it ends a statement. -/
structure IsStatementText (k : Conventions) (before text : List Char) : Prop where
  ne_nil : text ≠ []
  first : ∀ c ∈ text.head?, isBlank c = false
  last : ∀ c ∈ text.getLast?, isBlank c = false
  uncut : k.IsUncut before text

/-- The statements of a text behind `before`. They stand in the text one behind the other, each at its
offset, with nothing but blanks and separators in front of it, between them and at the end. Each of
them is the first of the source or separated from the one before it by the end of a statement. -/
inductive AreStatements (k : Conventions) (base : Nat) :
    (before text : List Char) → List Statement → Prop
  | nil {before gap : List Char} : (∀ c ∈ gap, k.isGap c = true) → AreStatements k base before gap []
  | cons {before gap rest : List Char} {s : Statement} {later : List Statement} :
      (∀ c ∈ gap, k.isGap c = true) → (before = [] ∨ ¬k.IsUncut before gap) →
      k.IsStatementText (before ++ gap) s.text → s.offset = base + byteSize (before ++ gap) →
      AreStatements k base (before ++ (gap ++ s.text)) rest later →
      AreStatements k base before (gap ++ (s.text ++ rest)) (s :: later)

/-- Separators are gaps between statements. -/
theorem isGap_of_isSeparator (h : k.isSeparator c = true) : k.isGap c = true := by
  rw [isSeparator, Bool.or_eq_true] at h
  rw [isGap, Bool.or_eq_true]
  refine h.imp_left fun hfeed => ?_
  rw [of_decide_eq_true hfeed]
  rfl

/-- Blanks are gaps between statements. -/
theorem isGap_of_isBlank (h : isBlank c = true) : k.isGap c = true := by
  rw [isGap, h, Bool.true_or]

/-- The trimmed pieces, without the blank ones. -/
def trimmed (pieces : List Statement) : List Statement :=
  (pieces.map Statement.trim).filter fun s => !s.text.isEmpty

/-- **A piece is a statement or lies between statements.** The gap in front of it has been read
already, and what is read behind it begins with the blanks at its end. -/
theorem AreStatements.piece {base : Nat} {before gap piece rest : List Char} {later : List Statement}
    (hgap : ∀ c ∈ gap, k.isGap c = true) (hfirst : before = [] ∨ ¬k.IsUncut before gap)
    (huncut : k.IsUncut (before ++ gap) piece)
    (hrest : ∀ before' gap', before' ++ gap' = before ++ (gap ++ piece) →
      (∀ c ∈ gap', k.isGap c = true) → AreStatements k base before' (gap' ++ rest) (trimmed later)) :
    AreStatements k base before (gap ++ (piece ++ rest))
      (trimmed (⟨piece, base + byteSize (before ++ gap)⟩ :: later)) := by
  obtain ⟨blank, hblank, heq⟩ := Text.exists_trim_append piece
  have hfront : ∀ c ∈ piece.takeWhile isBlank, k.isGap c = true :=
    fun c hc => isGap_of_isBlank (List.mem_takeWhile_imp hc)
  have hback : ∀ c ∈ blank, k.isGap c = true := fun c hc => isGap_of_isBlank (hblank c hc)
  by_cases hnil : Text.trim piece = []
  -- nothing but blanks: the piece lengthens the gap
  · have hskip : trimmed (⟨piece, base + byteSize (before ++ gap)⟩ :: later) = trimmed later := by
      simp [trimmed, Statement.trim, hnil]
    rw [hskip, ← List.append_assoc]
    refine hrest before (gap ++ piece) rfl (List.forall_mem_append.2 ⟨hgap, ?_⟩)
    rw [heq, hnil]
    exact List.forall_mem_append.2 ⟨hfront, hback⟩
  · have hkeep : trimmed (⟨piece, base + byteSize (before ++ gap)⟩ :: later) =
        Statement.trim ⟨piece, base + byteSize (before ++ gap)⟩ :: trimmed later := by
      simp [trimmed, Statement.trim, hnil]
    have htext : gap ++ (piece ++ rest) =
        gap ++ piece.takeWhile isBlank ++ (Text.trim piece ++ (blank ++ rest)) := by
      nth_rewrite 1 [heq]
      simp only [List.append_assoc]
    rw [hkeep, htext]
    refine .cons (s := Statement.trim ⟨piece, base + byteSize (before ++ gap)⟩)
      (List.forall_mem_append.2 ⟨hgap, hfront⟩) (hfirst.imp_right fun h huncut => h huncut.left)
      ⟨hnil, Text.head?_trim piece, Text.getLast?_trim piece, ?_⟩ ?_ (hrest _ blank ?_ hback)
    · rw [heq] at huncut
      rw [← List.append_assoc]
      exact huncut.inner
    · show base + byteSize (before ++ gap) + byteSize (piece.takeWhile isBlank) = _
      rw [← List.append_assoc, Text.byteSize_append (before ++ gap), Nat.add_assoc]
    · nth_rewrite 3 [heq]
      simp only [Statement.trim, List.append_assoc]

/-- **The trimmed pieces are the statements.** -/
theorem areStatements_of_arePieces {base : Nat} {before gap text piece : List Char}
    {later : List Statement} (h : ArePieces k base (before ++ gap) text piece later)
    (hgap : ∀ c ∈ gap, k.isGap c = true) (hfirst : before = [] ∨ ¬k.IsUncut before gap) :
    AreStatements k base before (gap ++ text)
      (trimmed (⟨piece, base + byteSize (before ++ gap)⟩ :: later)) := by
  generalize hfront : before ++ gap = front at h
  induction h generalizing before gap with
  | @last _ text huncut =>
    subst hfront
    have hpiece : AreStatements k base before (gap ++ (text ++ []))
        (trimmed [⟨text, base + byteSize (before ++ gap)⟩]) :=
      AreStatements.piece hgap hfirst huncut fun before' gap' _ hgap' =>
        .nil (by rwa [List.append_nil])
    rwa [List.append_nil] at hpiece
  | @cut _ piece rest next c later huncut hends _ ih =>
    subst hfront
    refine AreStatements.piece hgap hfirst huncut fun before' gap' heq hgap' => ?_
    rw [List.append_assoc, ← heq] at hends
    have hall : before ++ gap ++ (piece ++ [c]) = before' ++ (gap' ++ [c]) := by
      rw [← List.append_assoc, ← List.append_assoc, heq]
      simp only [List.append_assoc]
    rw [List.append_cons]
    refine ih (List.forall_mem_append.2
      ⟨hgap', List.forall_mem_singleton.2 (isGap_of_isSeparator hends.separator)⟩) (Or.inr ?_) hall.symm
    exact fun h => h gap' c [] rfl hends

/-- **Exactly the balanced texts are cut into statements, and nothing of them is lost.** -/
theorem statements_isExact (k : Conventions) (base : Nat) (text : List Char) :
    ((∃ found, k.statements base text = .ok found) ↔ k.IsBalanced text) ∧
      ∀ found, k.statements base text = .ok found → k.AreStatements base [] text found := by
  constructor
  · rw [← cutThrough_eq_ok_iff base, ← exists_cut_iff, statements]
    cases k.cut base {} text with
    | error imbalance => simp
    | ok result => exact iff_of_true ⟨_, rfl⟩ ⟨result, rfl⟩
  · intro found h
    rw [statements] at h
    split at h
    · next piece later hcut =>
      obtain rfl := Except.ok.inj h
      have hpieces : ArePieces k base ([] ++ []) text piece later := arePieces_of_cut rfl hcut
      exact areStatements_of_arePieces hpieces (List.forall_mem_nil _) (Or.inl rfl)
    · exact absurd h (by simp)

end Conventions

end Flowchart
