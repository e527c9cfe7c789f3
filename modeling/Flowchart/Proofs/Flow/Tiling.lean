import Flowchart.Proofs.Flow.Tokens

/-!
# The lexemes of a source tile it

The scanner takes its source apart: each step reads a part that is not empty and goes on behind it. So
**scanning ends after at most as many steps as there are characters**, and where no step finds a
problem the spans of the tokens cover the source without gap or overlap.

Recovery goes on behind a problem like behind a token, so the same holds for a source with problems:
each part of it belongs to one token or one problem.
-/

namespace Flowchart

open Text (byteSize)

/-! ## Tilings -/

/-- The spans follow one another from one offset to the other, without gap or overlap, and none of
them is empty. -/
inductive Tiles : (start : Nat) → List Span → (stop : Nat) → Prop
  | nil (start : Nat) : Tiles start [] start
  | cons {span : Span} {spans : List Span} {stop : Nat} :
      span.start < span.stop → Tiles span.stop spans stop → Tiles span.start (span :: spans) stop

/-- The span is the place of this part of the source. -/
structure Span.Holds (source : List Char) (span : Span) (part : List Char) : Prop where
  occursAt : OccursAt source part span.start
  stop_eq : span.stop = span.start + byteSize part

theorem byteSize_pos_of_ne_nil {text : List Char} (h : text ≠ []) : 0 < byteSize text := by
  obtain ⟨c, cs, rfl⟩ := List.exists_cons_of_ne_nil h
  have hpos := c.utf8Size_pos
  rw [Text.byteSize_cons]
  omega

namespace Flow

variable {source cs : List Char}

/-! ## Steps of the scan -/

/-- The lexeme is what reading `taken` at an offset has given. -/
def Lexeme.IsRead (pos : Nat) (taken : List Char) : Lexeme → Prop
  | .token t =>
    t.span.start = pos ∧ t.span.stop = pos + byteSize taken ∧
      ∀ content, t.value = .text content → content = taken ∧ IsPlainText content
  | .problem p => p.code = some .unterminatedString ∨ p.code = some .invalidEscape

theorem Lexeme.isRead_ofText {pos : Nat} {taken : List Char} {token : Token}
    (htoken : ∀ content, token = .text content → content = taken ∧ IsPlainText content) :
    (Lexeme.ofText pos taken token).IsRead pos taken :=
  ⟨rfl, Nat.max_eq_left (Nat.le_add_right _ _), htoken⟩

/-- A step of the scan reads a part that is not empty, and gives the lexeme of this part. -/
def Takes (pos : Nat) (cs : List Char) (found : Lexeme × List Char) : Prop :=
  ∃ taken, taken ≠ [] ∧ cs = taken ++ found.2 ∧ found.1.IsRead pos taken

theorem takes_scanString (pos : Nat) (cs : List Char) :
    Takes pos ('"' :: cs) (scanString pos cs) := by
  have hrest := suffix_rest_read cs
  unfold scanString
  split <;> rename_i heq <;> rw [heq] at hrest
  · next content rest =>
    obtain ⟨read, rfl⟩ := hrest
    refine ⟨'"' :: read, List.cons_ne_nil _ _, rfl, rfl, ?_, ?_⟩
    · have hquote : '"'.utf8Size = 1 := rfl
      show max (pos + 1 + (byteSize (read ++ rest) - byteSize rest)) pos = pos + byteSize ('"' :: read)
      rw [Text.byteSize_append, Text.byteSize_cons]
      omega
    · intro content hcontent
      exact absurd hcontent (by simp)
  · next rest =>
    obtain ⟨read, hread⟩ := (List.drop_suffix 1 rest).trans hrest
    exact ⟨'"' :: read, List.cons_ne_nil _ _, by rw [← hread]; rfl, Or.inl rfl⟩
  · next rest =>
    obtain ⟨read, hread⟩ := (suffix_skipString _).trans ((List.drop_suffix 2 rest).trans hrest)
    exact ⟨'"' :: read, List.cons_ne_nil _ _, by rw [← hread]; rfl, Or.inr rfl⟩

/-- **One step of the scan**, whatever the text starts with. -/
theorem takes_scanOne (pos : Nat) (c : Char) (cs : List Char) :
    Takes pos (c :: cs) (scanOne pos c cs) := by
  rcases scanOne_cases pos c cs with ⟨taken, rest, token, hne, heq, htoken, hone⟩ | ⟨rfl, hone⟩
  · rw [hone]
    exact ⟨taken, hne, heq, Lexeme.isRead_ofText htoken⟩
  · rw [hone]
    exact takes_scanString pos cs

/-! ## The whole scan -/

/-- The lexemes are those of the parts of a text, read one after the other. -/
inductive AreRead : (pos : Nat) → (cs : List Char) → List Lexeme → Prop
  | nil (pos : Nat) : AreRead pos [] []
  | cons {pos : Nat} {taken rest : List Char} {lexeme : Lexeme} {lexemes : List Lexeme} :
      taken ≠ [] → lexeme.IsRead pos taken → AreRead (pos + byteSize taken) rest lexemes →
      AreRead pos (taken ++ rest) (lexeme :: lexemes)

/-- **A source is read part by part.** -/
theorem areRead_scan (pos : Nat) (cs : List Char) : AreRead pos cs (scan pos cs) := by
  induction hlength : cs.length using Nat.strong_induction_on generalizing pos cs with
  | _ length ih =>
    cases cs with
    | nil =>
      rw [scan]
      exact .nil pos
    | cons c cs =>
      obtain ⟨taken, hne, heq, hread⟩ := takes_scanOne pos c cs
      rw [scan]
      generalize scanOne pos c cs = found at heq hread
      have hpos : pos + (byteSize (c :: cs) - byteSize found.2) = pos + byteSize taken := by
        rw [heq, Text.byteSize_append, Nat.add_sub_cancel]
      have hlt : found.2.length < length := by
        have htaken : 0 < taken.length := List.length_pos_iff.2 hne
        rw [← hlength, heq, List.length_append]
        omega
      rw [hpos, heq]
      exact .cons hne hread (ih _ hlt _ _ rfl)

namespace AreRead

variable {pos : Nat} {lexemes : List Lexeme}

theorem length_le (h : AreRead pos cs lexemes) : lexemes.length ≤ cs.length := by
  induction h with
  | nil => exact Nat.le_refl _
  | @cons pos taken rest lexeme lexemes hne _ _ ih =>
    have htaken : 0 < taken.length := List.length_pos_iff.2 hne
    rw [List.length_cons, List.length_append]
    omega

theorem tiles {ts : List (Spanned Token)} (h : AreRead pos cs (ts.map Lexeme.token)) :
    Tiles pos (ts.map Spanned.span) (pos + byteSize cs) := by
  generalize hlexemes : ts.map Lexeme.token = lexemes at h
  induction h generalizing ts with
  | nil pos =>
    obtain rfl := List.map_eq_nil_iff.1 hlexemes
    exact .nil pos
  | @cons pos taken rest lexeme lexemes hne hread _ ih =>
    obtain ⟨t, ts, rfl, rfl, hts⟩ := List.map_eq_cons_iff.1 hlexemes
    obtain ⟨hstart, hstop, -⟩ := hread
    have hpos := byteSize_pos_of_ne_nil hne
    have hrest := ih hts
    rw [← hstop] at hrest
    rw [← hstart, Text.byteSize_append, hstart, ← Nat.add_assoc, ← hstop, ← hstart, List.map_cons]
    exact .cons (by omega) hrest

/-- The span of a text token holds its content. -/
theorem holds (h : AreRead pos cs lexemes) (done : List Char) (hsource : source = done ++ cs)
    (hpos : pos = byteSize done) {t : Spanned Token} (ht : .token t ∈ lexemes) {content : List Char}
    (hcontent : t.value = .text content) : t.span.Holds source content ∧ IsPlainText content := by
  induction h generalizing done with
  | nil => exact absurd ht List.not_mem_nil
  | @cons pos taken rest lexeme lexemes _ hread _ ih =>
    rcases List.mem_cons.1 ht with rfl | ht
    · obtain ⟨hstart, hstop, htext⟩ := hread
      obtain ⟨rfl, hplain⟩ := htext content hcontent
      exact ⟨⟨⟨done, rest, hsource, by rw [hstart, hpos]⟩, by rw [hstop, hstart]⟩, hplain⟩
    · exact ih (done ++ taken) (by rw [hsource, List.append_assoc])
        (by rw [hpos, Text.byteSize_append]) ht

theorem code_of_mem (h : AreRead pos cs lexemes) {p : Diagnostic} (hp : .problem p ∈ lexemes) :
    p.code = some .unterminatedString ∨ p.code = some .invalidEscape := by
  induction h with
  | nil => exact absurd hp List.not_mem_nil
  | cons _ hread _ ih =>
    rcases List.mem_cons.1 hp with rfl | hp
    · exact hread
    · exact ih hp

end AreRead

/-! ## Tokens -/

/-- **Scanning tiles the source.** It takes at most as many steps as there are characters. If it finds
no problem the spans of the tokens tile the source, and each text token is the part of the source at
its span, is not empty, has no blanks at its ends and holds no mark. Otherwise each problem is a string
that is not closed or an invalid escape. -/
theorem tokens_tile (source : String) :
    (scan 0 source.toList).length ≤ source.toList.length ∧
      Yields (tokens source.toList)
        (fun ts => Tiles 0 (ts.map Spanned.span) source.utf8ByteSize ∧
          ∀ t ∈ ts, ∀ content, t.value = .text content →
            t.span.Holds source.toList content ∧ IsPlainText content)
        fun e => ∀ problem ∈ e.diagnostics,
          problem.code = some .unterminatedString ∨ problem.code = some .invalidEscape := by
  have hread := areRead_scan 0 source.toList
  refine ⟨hread.length_le, ?_, ?_⟩
  · intro ts hts
    rw [scan_eq_of_tokens hts] at hread
    refine ⟨?_, fun t ht content =>
      hread.holds [] (List.nil_append _).symm rfl (List.mem_map_of_mem ht)⟩
    rw [← byteSize_toList, ← Nat.zero_add (byteSize source.toList)]
    exact hread.tiles
  · intro e he problem hproblem
    obtain ⟨found, hfound, rfl⟩ := exists_problem_of_tokens he hproblem
    rw [Diagnostic.code_locate]
    exact hread.code_of_mem hfound

end Flow

end Flowchart
