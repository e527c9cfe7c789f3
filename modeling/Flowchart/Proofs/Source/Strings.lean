import Flowchart.Proofs.Source.Cutting
import Flowchart.Source.Reader

/-!
# Where a string ends

Three scanners look for the closing quote of a string: the one that hides comments, the one that cuts
statements, and the reader of the string itself. The first two read character by character and step
alike inside a string (`stringStep?`); the third reads an escape at once. So **a string ends for all
of them behind the same content**, which is the one over which it stays open, with no backslash left
over (`staysQuoted`).
-/

namespace Flowchart

open Text (byteSize)

namespace Conventions

variable {k : Conventions} {escaped : Bool} {body : List Char}

/-! ## The cutter -/

/-- The state of the cutter behind a text. -/
def cutThrough (k : Conventions) : (pos : Nat) → CutState → List Char → Except Imbalance CutState
  | _, state, [] => .ok state
  | pos, state, c :: cs =>
    match k.cutStep pos state c with
    | .ok next => k.cutThrough (pos + c.utf8Size) next.1 cs
    | .error imbalance => .error imbalance

theorem cutThrough_cons_of_ok {pos : Nat} {state next : CutState} {ends : Bool} {c : Char}
    (h : k.cutStep pos state c = .ok (next, ends)) (cs : List Char) :
    k.cutThrough pos state (c :: cs) = k.cutThrough (pos + c.utf8Size) next cs := by
  rw [cutThrough, h]

theorem cutThrough_cons_of_error {pos : Nat} {state : CutState} {imbalance : Imbalance} {c : Char}
    (h : k.cutStep pos state c = .error imbalance) (cs : List Char) :
    k.cutThrough pos state (c :: cs) = .error imbalance := by
  rw [cutThrough, h]

/-- **The cutter goes through two pieces one after the other.** -/
theorem cutThrough_append {pos : Nat} {state next : CutState} {front : List Char}
    (h : k.cutThrough pos state front = .ok next) (back : List Char) :
    k.cutThrough pos state (front ++ back) = k.cutThrough (pos + byteSize front) next back := by
  induction front generalizing pos state with
  | nil =>
    obtain rfl := Except.ok.inj h
    rfl
  | cons c cs ih =>
    rw [List.cons_append]
    cases hstep : k.cutStep pos state c with
    | error imbalance =>
      rw [cutThrough_cons_of_error hstep] at h
      exact absurd h (by simp)
    | ok mid =>
      rw [cutThrough_cons_of_ok hstep] at h ⊢
      rw [ih h, Text.byteSize_cons, Nat.add_assoc]

variable {pos openedAt : Nat} {state : CutState} {c : Char}

/-- A line feed inside a string stops the cutter. -/
theorem cutStep_feed (hquote : state.quote = some (openedAt, escaped)) :
    k.cutStep pos state '\n' = .error (.unterminatedString openedAt pos) := by
  simp [cutStep, hquote]

/-- A quote outside a string opens one. -/
theorem cutStep_opening (hquote : state.quote = none) :
    k.cutStep pos state '"' = .ok ({ state with quote := some (pos, false) }, false) := by
  simp [cutStep, hquote]

/-- The string stays open for the cutter. -/
theorem cutThrough_of_foldlM (hquote : state.quote = some (openedAt, escaped)) {next : Bool}
    (h : body.foldlM k.stringStep? escaped = some next) :
    k.cutThrough pos state body = .ok { state with quote := some (openedAt, next) } := by
  induction body generalizing pos state escaped with
  | nil =>
    obtain rfl : escaped = next := by simpa using h
    rw [cutThrough, ← hquote]
  | cons c cs ih =>
    obtain ⟨mid, hmid, hrest⟩ := foldlM_cons_eq_some_iff.1 h
    rw [cutThrough_cons_of_ok (cutStep_of_stringStep? hquote hmid _)]
    exact ih rfl hrest

/-- **The cutter closes a string behind its content.** -/
theorem cutThrough_string (hquote : state.quote = none) (hbody : k.staysQuoted false body = true) :
    k.cutThrough pos state ('"' :: (body ++ ['"'])) = .ok state := by
  have hopened : k.cutThrough pos state ('"' :: body) =
      .ok { state with quote := some (pos, false) } := by
    rw [cutThrough_cons_of_ok (cutStep_opening hquote),
      cutThrough_of_foldlM rfl (staysQuoted_iff.1 hbody)]
  rw [← List.cons_append, cutThrough_append hopened, cutThrough_cons_of_ok (cutStep_quote rfl _),
    cutThrough, ← hquote]

/-! ## The reader of comments -/

/-- The mode of the reader of comments behind a text, and what `rest` follows it. -/
def modeBehind (k : Conventions) : (pos : Nat) → CommentMode → (text rest : List Char) → CommentMode
  | _, mode, [], _ => mode
  | pos, mode, c :: cs, rest =>
    k.modeBehind (pos + c.utf8Size) (k.commentStep pos mode c (cs ++ rest)).1 cs rest

/-- What mode a text leads to is found piece by piece. -/
theorem modeBehind_append (pos : Nat) (mode : CommentMode) (front back rest : List Char) :
    k.modeBehind pos mode (front ++ back) rest =
      k.modeBehind (pos + byteSize front) (k.modeBehind pos mode front (back ++ rest)) back rest := by
  induction front generalizing pos mode with
  | nil => rfl
  | cons c cs ih =>
    rw [List.cons_append, modeBehind, modeBehind, ih, Text.byteSize_cons, Nat.add_assoc,
      List.append_assoc]

/-- The string stays open for the reader of comments. -/
theorem modeBehind_of_foldlM {next : Bool} (h : body.foldlM k.stringStep? escaped = some next)
    (pos : Nat) (rest : List Char) :
    k.modeBehind pos (.quoted escaped) body rest = .quoted next := by
  induction body generalizing pos escaped with
  | nil =>
    obtain rfl : escaped = next := by simpa using h
    rfl
  | cons c cs ih =>
    obtain ⟨mid, hmid, hrest⟩ := foldlM_cons_eq_some_iff.1 h
    rw [modeBehind, commentStep_of_stringStep? hmid]
    exact ih hrest _

/-! ## Closing a string -/

/-- A scanner that was started at the opening quote is inside the string up to the end of its content
`body`, and outside behind the quote that follows. The scanner is given by what it says about a text
that it has read and the text that follows: whether it is inside a string, or nothing if it has
stopped. -/
structure ClosesString (inString? : (text rest : List Char) → Option Bool) (body rest : List Char) :
    Prop where
  inside : ∀ front back, body = front ++ back →
    inString? ('"' :: front) (back ++ '"' :: rest) = some true
  outside : inString? ('"' :: (body ++ ['"'])) rest = some false

/-- Whether the cutter is inside a string behind a text. -/
def cutterInString? (k : Conventions) (pos : Nat) (state : CutState) (text _rest : List Char) :
    Option Bool :=
  match k.cutThrough pos state text with
  | .ok next => some next.quote.isSome
  | .error _ => none

/-- Whether the reader of comments is inside a string behind a text. -/
def commentsInString? (k : Conventions) (pos : Nat) (lineStart : Bool) (text rest : List Char) :
    Option Bool :=
  match k.modeBehind pos (.code 0 lineStart) text rest with
  | .quoted _ => some true
  | _ => some false

variable {rest : List Char}

theorem cutterInString?_of_ok {text : List Char} {next : CutState}
    (h : k.cutThrough pos state text = .ok next) :
    k.cutterInString? pos state text rest = some next.quote.isSome := by
  rw [cutterInString?, h]

theorem cutterInString?_of_error {text : List Char} {imbalance : Imbalance}
    (h : k.cutThrough pos state text = .error imbalance) :
    k.cutterInString? pos state text rest = none := by
  rw [cutterInString?, h]

/-- While the cutter is inside a string, the string stays open. -/
theorem exists_foldlM_of_inside (hquote : state.quote = none)
    (h : ∀ front back, body = front ++ back →
      k.cutterInString? pos state ('"' :: front) (back ++ '"' :: rest) = some true) :
    ∃ next, body.foldlM k.stringStep? false = some next ∧
      k.cutThrough pos state ('"' :: body) = .ok { state with quote := some (pos, next) } := by
  -- the content grows at its end, so that the cutter goes on where it was
  induction body using List.reverseRecOn with
  | nil => exact ⟨false, rfl, cutThrough_cons_of_ok (cutStep_opening hquote) []⟩
  | append_singleton front c ih =>
    obtain ⟨flag, hflag, hfront⟩ := ih fun before back heq =>
      h before (back ++ [c]) (by rw [heq, List.append_assoc])
    have hlast := h (front ++ [c]) [] (List.append_nil _).symm
    rw [← List.cons_append] at hlast ⊢
    rw [List.foldlM_append, hflag]
    cases hstep : k.stringStep? flag c with
    | some next =>
      refine ⟨next, by simp [hstep], ?_⟩
      rw [cutThrough_append hfront, cutThrough_cons_of_ok (cutStep_of_stringStep? rfl hstep _), cutThrough]
    | none =>
      exfalso
      rcases stringStep?_eq_none_iff.1 hstep with rfl | ⟨rfl, rfl⟩
      · rw [cutterInString?_of_error
          (by rw [cutThrough_append hfront, cutThrough_cons_of_error (cutStep_feed rfl)])] at hlast
        exact absurd hlast (by simp)
      · rw [cutterInString?_of_ok
          (by rw [cutThrough_append hfront, cutThrough_cons_of_ok (cutStep_quote rfl _), cutThrough])]
          at hlast
        exact absurd hlast (by simp)

/-- **Where the cutter closes a string, the string stays open up to there** and no backslash is left
over. -/
theorem closesString_cutter_iff (hquote : state.quote = none) :
    ClosesString (k.cutterInString? pos state) body rest ↔ k.staysQuoted false body = true := by
  constructor
  · intro h
    obtain ⟨next, hnext, hthrough⟩ := exists_foldlM_of_inside hquote h.inside
    rw [staysQuoted_iff, hnext]
    cases next with
    | false => rfl
    | true =>
      -- the quote would be escaped
      have hescaped : k.stringStep? true '"' = some false := rfl
      have hout := h.outside
      rw [← List.cons_append, cutterInString?_of_ok (by rw [cutThrough_append hthrough,
        cutThrough_cons_of_ok (cutStep_of_stringStep? rfl hescaped _), cutThrough])] at hout
      exact absurd hout (by simp)
  · intro h
    constructor
    · rintro front back rfl
      rw [staysQuoted_iff, List.foldlM_append] at h
      obtain ⟨next, hfront, -⟩ := Option.bind_eq_some_iff.1 h
      have hthrough : k.cutThrough pos state ('"' :: front) =
          .ok { state with quote := some (pos, next) } := by
        rw [cutThrough_cons_of_ok (cutStep_opening hquote), cutThrough_of_foldlM rfl hfront]
      exact cutterInString?_of_ok hthrough
    · rw [cutterInString?_of_ok (cutThrough_string hquote h), hquote]
      rfl

/-- **The reader of comments closes the string there too**, if no comment starts with the quote. -/
theorem closesString_comments {lineStart : Bool}
    (hopen : k.commentStep pos (.code 0 lineStart) '"' (body ++ '"' :: rest) = (.quoted false, false))
    (hbody : k.staysQuoted false body = true) :
    ClosesString (k.commentsInString? pos lineStart) body rest := by
  rw [staysQuoted_iff] at hbody
  constructor
  · rintro front back rfl
    rw [List.foldlM_append] at hbody
    obtain ⟨next, hfront, -⟩ := Option.bind_eq_some_iff.1 hbody
    rw [commentsInString?, modeBehind, ← List.append_assoc, hopen, modeBehind_of_foldlM hfront]
  · have hclose : k.modeBehind pos (.code 0 lineStart) ('"' :: (body ++ ['"'])) rest = .code 0 false := by
      rw [modeBehind, List.append_assoc, List.singleton_append, hopen, modeBehind_append,
        modeBehind_of_foldlM hbody, modeBehind, commentStep_quote, modeBehind]
    rw [commentsInString?, hclose]

/-! ## Readers of strings -/

/-- A reader that knows escapes ends there too. -/
theorem exists_decodeTail? (hk : k.escapes = true) (rest : List Char) :
    ∀ {body : List Char}, k.staysQuoted false body = true →
      ∃ content, Text.Quoted.decodeTail? (body ++ '"' :: rest) = some (content, rest)
  | [], _ => ⟨[], by rw [List.nil_append, Text.Quoted.decodeTail?]⟩
  | c :: cs, h => by
    obtain ⟨next, hnext, hcs⟩ := staysQuoted_cons_iff.1 h
    obtain ⟨-, ⟨h, -⟩ | ⟨-, hslash, rfl⟩ | ⟨-, hslash, hclose, rfl⟩⟩ := stringStep?_eq_some_iff.1 hnext
    · exact absurd h (by simp)
    · obtain rfl : c = '\\' := by simpa [hk] using hslash
      cases cs with
      | nil => exact absurd hcs (by simp [staysQuoted])
      | cons d ds =>
        obtain ⟨next, hnext, hds⟩ := staysQuoted_cons_iff.1 hcs
        obtain ⟨-, ⟨-, rfl⟩ | ⟨h, -⟩ | ⟨h, -⟩⟩ := stringStep?_eq_some_iff.1 hnext
        · obtain ⟨content, hcontent⟩ := exists_decodeTail? hk rest hds
          refine ⟨Text.Quoted.unescape d ++ content, ?_⟩
          rw [List.cons_append, List.cons_append, Text.Quoted.decodeTail?, hcontent, Option.map_some]
        · exact absurd h (by simp)
        · exact absurd h (by simp)
    · have hplain : c ≠ '\\' := by simpa [hk] using hslash
      obtain ⟨content, hcontent⟩ := exists_decodeTail? hk rest hcs
      refine ⟨c :: content, ?_⟩
      rw [List.cons_append, Text.Quoted.decodeTail?, hcontent, Option.map_some]
      · exact hclose
      · exact fun _ _ h _ => hplain h

/-- A reader that knows none reads up to the next quote. -/
theorem ne_quote_of_staysQuoted (hk : k.escapes = false) (h : k.staysQuoted false body = true) :
    ∀ c ∈ body, c ≠ '"' := by
  induction body with
  | nil => exact List.forall_mem_nil _
  | cons c cs ih =>
    obtain ⟨next, hnext, hcs⟩ := staysQuoted_cons_iff.1 h
    obtain ⟨-, ⟨h, -⟩ | ⟨-, hslash, -⟩ | ⟨-, -, hclose, rfl⟩⟩ := stringStep?_eq_some_iff.1 hnext
    · exact absurd h (by simp)
    · exact absurd hslash (by simp [hk])
    · exact List.forall_mem_cons.2 ⟨hclose, ih hcs⟩

end Conventions

namespace Reader

/-- The cursor behind a string. -/
theorem moveTo_string (start : Nat) (body rest : List Char) :
    Cursor.moveTo ⟨start, '"' :: (body ++ '"' :: rest)⟩ rest =
      ⟨start + byteSize ('"' :: (body ++ ['"'])), rest⟩ := by
  have heq : '"' :: (body ++ '"' :: rest) = '"' :: (body ++ ['"']) ++ rest := by simp
  rw [Cursor.moveTo, heq, Text.byteSize_append, Nat.add_sub_cancel]

/-- A string with escapes is read up to the quote that closes it. -/
theorem escapedString_eq_ok {body content rest : List Char}
    (h : Text.Quoted.decodeTail? (body ++ '"' :: rest) = some (content, rest)) (start : Nat) :
    escapedString ⟨start, '"' :: (body ++ '"' :: rest)⟩ =
      .ok (content, ⟨start + byteSize ('"' :: (body ++ ['"'])), rest⟩) := by
  rw [← moveTo_string, escapedString]
  simp only [h]

/-- A string without escapes is read up to the next quote. -/
theorem rawString_eq_ok {body rest : List Char} (h : ∀ c ∈ body, c ≠ '"') (start : Nat) :
    rawString ⟨start, '"' :: (body ++ '"' :: rest)⟩ =
      .ok (body, ⟨start + byteSize ('"' :: (body ++ ['"'])), rest⟩) := by
  have hbreak : Text.breakAt? ['"'] (body ++ '"' :: rest) = some (body, rest) :=
    Text.breakAt?_append h rest
  rw [← moveTo_string, rawString]
  simp only [hbreak]

end Reader

end Flowchart
