import Flowchart.Proofs.Flow.Words
import Flowchart.Proofs.Source.Visible

/-!
# Where the tokens of flow text stand

Flow text is scanned as it is, so there are no hidden comments to look through. What a step of the
scan leaves is the end of the text, and what it has read is the beginning, so **every token and every
problem of the tokens stands between boundaries of the source**.
-/

namespace Flowchart.Flow

open Text (byteSize)

variable {source : List Char}

/-! ## What is left of a text -/

theorem suffix_rest_read (cs : List Char) : (Literal.read cs).rest <:+ cs := by
  fun_induction Literal.read cs with
  | case1 | case3 | case4 => exact List.suffix_rfl
  | case2 rest => exact List.suffix_cons _ rest
  | case5 c rest decoded _ ih =>
    rw [Literal.rest_cons]
    exact ih.trans ((List.suffix_cons c rest).trans (List.suffix_cons _ _))
  | case6 => exact List.suffix_rfl
  | case7 c rest _ _ _ _ ih =>
    rw [Literal.rest_cons]
    exact ih.trans (List.suffix_cons c rest)

/-- A reading that stops at an escape leaves the text from its backslash on. -/
theorem head?_rest_of_badEscape {cs rest : List Char} (h : Literal.read cs = .badEscape rest) :
    rest.head? = some '\\' := by
  fun_induction Literal.read cs with
  | case1 | case2 | case3 => simp at h
  | case4 | case6 =>
    obtain rfl := Literal.badEscape.inj h
    rfl
  | case5 c cs decoded _ ih =>
    refine ih ?_
    cases hread : Literal.read cs <;> simp_all [Literal.cons]
  | case7 c cs _ _ _ _ ih =>
    refine ih ?_
    cases hread : Literal.read cs <;> simp_all [Literal.cons]

theorem suffix_skipString (cs : List Char) : skipString cs <:+ cs := by
  fun_induction skipString cs with
  | case1 => exact List.suffix_rfl
  | case2 rest | case3 rest => exact List.suffix_cons _ rest
  | case4 c rest ih => exact ih.trans ((List.suffix_cons c rest).trans (List.suffix_cons _ _))
  | case5 c rest _ _ _ ih => exact ih.trans (List.suffix_cons c rest)

theorem suffix_scanString (pos : Nat) (tail : List Char) : (scanString pos tail).2 <:+ tail := by
  have h := suffix_rest_read tail
  unfold scanString
  split <;> rename_i heq <;> rw [heq] at h
  · exact h
  · exact (List.drop_suffix 1 _).trans h
  · exact (suffix_skipString _).trans ((List.drop_suffix 2 _).trans h)

/-- A step of the scan leaves an end of what stands behind its first character. -/
theorem suffix_scanOne (pos : Nat) (c : Char) (cs : List Char) : (scanOne pos c cs).2 <:+ cs := by
  rcases scanOne_cases pos c cs with ⟨taken, rest, token, hne, heq, -, hone⟩ | ⟨-, hone⟩
  · obtain ⟨d, ds, rfl⟩ := List.exists_cons_of_ne_nil hne
    rw [hone]
    exact ⟨ds, (List.cons_eq_cons.1 heq).2.symm⟩
  · rw [hone]
    exact suffix_scanString pos cs

/-! ## Lexemes -/

/-- The token stands between boundaries of the source, or the problem is placed. -/
def Lexeme.IsPlaced (source : List Char) : Lexeme → Prop
  | .token t => t.span.IsWithin source
  | .problem p => p.IsPlaced source

variable {done text rest cs : List Char}

theorem isBoundary_done (hsource : source = done ++ cs) : IsBoundary source (byteSize done) :=
  ⟨done, cs, hsource, rfl⟩

/-- There is a boundary behind what was read of a text. -/
theorem isBoundary_of_front (hsource : source = done ++ cs) (htext : text <+: cs) :
    IsBoundary source (byteSize done + byteSize text) := by
  obtain ⟨rest, rfl⟩ := htext
  exact ⟨done ++ text, rest, by rw [hsource, List.append_assoc], Text.byteSize_append _ _⟩

/-- There is a boundary in front of what is left of a text. -/
theorem isBoundary_of_suffix (hsource : source = done ++ cs) (hrest : rest <:+ cs) :
    IsBoundary source (byteSize done + (byteSize cs - byteSize rest)) := by
  obtain ⟨text, rfl⟩ := hrest
  rw [Text.byteSize_append, Nat.add_sub_cancel]
  exact isBoundary_of_front hsource (List.prefix_append text rest)

theorem isPlaced_ofText (hsource : source = done ++ cs) (htext : text <+: cs) (token : Token) :
    (Lexeme.ofText (byteSize done) text token).IsPlaced source :=
  Span.isWithin_ofRange (isBoundary_done hsource) (isBoundary_of_front hsource htext)

/-- **A string is placed from its opening quote**, an invalid escape in it from its backslash. -/
theorem isPlaced_scanString (hsource : source = done ++ '"' :: cs) :
    (scanString (byteSize done) cs).1.IsPlaced source := by
  have hstart := isBoundary_done hsource
  have htail : source = (done ++ ['"']) ++ cs := by rw [hsource]; simp
  have hquote : byteSize (done ++ ['"']) = byteSize done + 1 := Text.byteSize_append _ _
  -- the boundary that the reading of the string has reached
  have hreached : IsBoundary source
      (byteSize done + 1 + (byteSize cs - byteSize (Literal.read cs).rest)) := by
    rw [← hquote]
    exact isBoundary_of_suffix htail (suffix_rest_read cs)
  unfold scanString
  split <;> rename_i heq <;> rw [heq] at hreached
  · exact Span.isWithin_ofRange hstart hreached
  · rename_i rest
    have hmax : max (byteSize done + 1 + (byteSize cs - byteSize rest)) (byteSize done + 1) =
        byteSize done + 1 + (byteSize cs - byteSize rest) := by omega
    refine Diagnostic.isPlaced_of_label (Span.isWithin_ofRange hstart ?_) rfl rfl rfl rfl
    rw [hmax]
    exact hreached
  · rename_i rest
    have hsuffix : rest <:+ cs := by
      have h := suffix_rest_read cs
      rwa [heq] at h
    have hescape : IsBoundary source
        (byteSize done + 1 + (byteSize cs - byteSize rest) + byteSize (rest.take 2)) := by
      obtain ⟨read, rfl⟩ := hsuffix
      have hread : source = (done ++ ['"'] ++ read) ++ rest := by rw [htail, List.append_assoc _ read]
      have hsize : byteSize (done ++ ['"'] ++ read) =
          byteSize done + 1 + (byteSize (read ++ rest) - byteSize rest) := by
        rw [Text.byteSize_append, hquote, Text.byteSize_append, Nat.add_sub_cancel]
      rw [← hsize]
      exact isBoundary_of_front hread (List.take_prefix 2 rest)
    have hbackslash : 1 ≤ byteSize (rest.take 2) := by
      obtain ⟨back, rfl⟩ := List.head?_eq_some_iff.1 (head?_rest_of_badEscape heq)
      exact Nat.le_add_right 1 _
    refine Diagnostic.isPlaced_of_label (Span.isWithin_ofRange hreached ?_) rfl rfl rfl rfl
    rw [Nat.max_eq_left (Nat.add_le_add_left hbackslash _)]
    exact hescape

/-- **One step of the scan gives a lexeme that is placed.** -/
theorem isPlaced_scanOne {c : Char} (hsource : source = done ++ c :: cs) :
    (scanOne (byteSize done) c cs).1.IsPlaced source := by
  rcases scanOne_cases (byteSize done) c cs with
    ⟨taken, rest, token, -, heq, -, hone⟩ | ⟨rfl, hone⟩
  · rw [hone]
    exact isPlaced_ofText hsource ⟨rest, heq.symm⟩ token
  · rw [hone]
    exact isPlaced_scanString hsource

/-- **Every lexeme of a source is placed.** -/
theorem isPlaced_of_mem_scan (hsource : source = done ++ cs) :
    ∀ lexeme ∈ scan (byteSize done) cs, lexeme.IsPlaced source := by
  induction hlength : cs.length using Nat.strong_induction_on generalizing done cs with
  | _ length ih =>
    cases cs with
    | nil =>
      rw [scan]
      exact List.forall_mem_nil _
    | cons c cs =>
      rw [scan]
      refine List.forall_mem_cons.2 ⟨isPlaced_scanOne hsource, ?_⟩
      have hlt : (scanOne (byteSize done) c cs).2.length < length := by
        have hle := (suffix_scanOne (byteSize done) c cs).length_le
        rw [← hlength, List.length_cons]
        omega
      obtain ⟨read, hread⟩ := (suffix_scanOne (byteSize done) c cs).trans (List.suffix_cons c cs)
      generalize (scanOne (byteSize done) c cs).2 = rest at hread hlt ⊢
      have hpos : byteSize done + (byteSize (c :: cs) - byteSize rest) = byteSize (done ++ read) := by
        rw [← hread, Text.byteSize_append, Nat.add_sub_cancel, Text.byteSize_append]
      rw [hpos]
      exact ih rest.length hlt (by rw [hsource, ← hread, List.append_assoc]) rfl

/-! ## Tokens -/

/-- A scan without problems gives its tokens. -/
theorem tokens_eq_ok {ts : List (Spanned Token)} (h : scan 0 source = ts.map Lexeme.token) :
    tokens source = .ok ts := by
  have hproblems : ∀ f : Lexeme → Option Diagnostic, (∀ t, f (.token t) = none) →
      (ts.map Lexeme.token).filterMap f = [] := by
    intro f hf
    rw [List.filterMap_eq_nil_iff]
    exact List.forall_mem_map.2 fun t _ => hf t
  have htokens : ∀ f : Lexeme → Option (Spanned Token), (∀ t, f (.token t) = some t) →
      (ts.map Lexeme.token).filterMap f = ts := by
    intro f hf
    rw [List.filterMap_map, show f ∘ Lexeme.token = some from funext hf, List.filterMap_some]
  unfold tokens
  dsimp only
  rw [h, hproblems _ fun _ => rfl, htokens _ fun _ => rfl]
  rfl

/-- Where a source has tokens, they are all that the scan has found. -/
theorem scan_eq_of_tokens {ts : List (Spanned Token)} (h : tokens source = .ok ts) :
    scan 0 source = ts.map Lexeme.token := by
  have hall : ∃ us : List (Spanned Token), scan 0 source = us.map Lexeme.token := by
    unfold tokens at h
    dsimp only at h
    split at h
    · next hempty =>
      rw [List.isEmpty_iff, List.filterMap_eq_nil_iff] at hempty
      generalize scan 0 source = lexemes at hempty
      induction lexemes with
      | nil => exact ⟨[], rfl⟩
      | cons lexeme lexemes ih =>
        obtain ⟨hlexeme, hlexemes⟩ := List.forall_mem_cons.1 hempty
        obtain ⟨us, rfl⟩ := ih hlexemes
        cases lexeme with
        | token t => exact ⟨t :: us, rfl⟩
        | problem p => exact absurd hlexeme (by simp)
    · exact absurd h (by simp)
  obtain ⟨us, hus⟩ := hall
  rw [tokens_eq_ok hus] at h
  rw [hus, Except.ok.inj h]

/-- Where a source has no tokens, the scan has found what is reported. -/
theorem exists_problem_of_tokens {e : ParseError} (h : tokens source = .error e) {problem : Diagnostic}
    (hproblem : problem ∈ e.diagnostics) :
    ∃ found, .problem found ∈ scan 0 source ∧ problem = found.locate source := by
  unfold tokens at h
  dsimp only at h
  split at h
  · exact absurd h (by simp)
  · obtain rfl := Except.error.inj h
    obtain ⟨lexeme, hlexeme, heq⟩ := List.mem_filterMap.1 hproblem
    cases lexeme with
    | token t => exact absurd heq (by simp)
    | problem found =>
      obtain rfl : found.locate source = problem := by simpa using heq
      exact ⟨found, hlexeme, rfl⟩

/-- **The tokens of a source stand between its boundaries**, or the problems that are reported
instead point into it. -/
theorem yields_tokens (source : String) :
    Yields (tokens source.toList) (fun ts => ∀ t ∈ ts, t.span.IsWithin source.toList)
      fun e => ∀ problem ∈ e.diagnostics, problem.PointsInto source := by
  have hscan : ∀ lexeme ∈ scan 0 source.toList, lexeme.IsPlaced source.toList :=
    isPlaced_of_mem_scan (List.nil_append _).symm
  refine ⟨fun ts hts t ht => ?_, fun e he problem hproblem => ?_⟩
  · rw [scan_eq_of_tokens hts] at hscan
    exact hscan _ (List.mem_map_of_mem ht)
  · obtain ⟨found, hfound, rfl⟩ := exists_problem_of_tokens he hproblem
    exact Diagnostic.IsPlaced.pointsInto_locate (hscan _ hfound)

end Flowchart.Flow
