import Flowchart.Proofs.D2.Reading
import Flowchart.Proofs.Dot.Reading
import Flowchart.Proofs.Mermaid.Reading
import Flowchart.Proofs.PlantUml.Reading
import Flowchart.Proofs.Source.Strings

/-!
# The scanners of a notation agree

D2 and DOT know backslash escapes in strings, Mermaid and PlantUML do not. In each notation the cutter
of statements, the reader of comments and the reader of strings find the same closing quote, so **what
is written in a string cannot be taken for a statement or a comment**. A text in which quotes,
backslashes, line feeds and tabs are escaped ends at its own closing quote, whatever follows it.
-/

namespace Flowchart

open Text (byteSize)

namespace Text.Quoted

theorem feed_not_mem_encode (cs : List Char) : '\n' ∉ encode cs := by
  have hescape : ∀ c, '\n' ∉ escape c := by
    intro c
    unfold escape
    split
    · decide
    · decide
    · decide
    · decide
    · next hfeed _ => simpa using Ne.symm hfeed
  simp [encode, hescape]

end Text.Quoted

namespace Conventions

variable {k : Conventions} {pos : Nat} {state : CutState} {body rest : List Char}

/-- The scanners of a notation with escapes. -/
theorem escapedString_of_closesString (hk : k.Tidy) (hescapes : k.escapes = true)
    (hquote : state.quote = none) (h : ClosesString (k.cutterInString? pos state) body rest) :
    (∃ content, ∀ start, Reader.escapedString ⟨start, '"' :: (body ++ '"' :: rest)⟩ =
        .ok (content, ⟨start + byteSize ('"' :: (body ++ ['"'])), rest⟩)) ∧
      ∀ start lineStart, ClosesString (k.commentsInString? start lineStart) body rest := by
  have hbody := (closesString_cutter_iff hquote).1 h
  obtain ⟨content, hcontent⟩ := exists_decodeTail? hescapes rest hbody
  exact ⟨⟨content, Reader.escapedString_eq_ok hcontent⟩,
    fun start lineStart => closesString_comments (hk.commentStep_opening start lineStart _) hbody⟩

/-- The scanners of a notation without escapes. -/
theorem rawString_of_closesString (hk : k.Tidy) (hescapes : k.escapes = false)
    (hquote : state.quote = none) (h : ClosesString (k.cutterInString? pos state) body rest) :
    (∀ start, Reader.rawString ⟨start, '"' :: (body ++ '"' :: rest)⟩ =
        .ok (body, ⟨start + byteSize ('"' :: (body ++ ['"'])), rest⟩)) ∧
      ∀ start lineStart, ClosesString (k.commentsInString? start lineStart) body rest := by
  have hbody := (closesString_cutter_iff hquote).1 h
  exact ⟨Reader.rawString_eq_ok (ne_quote_of_staysQuoted hescapes hbody),
    fun start lineStart => closesString_comments (hk.commentStep_opening start lineStart _) hbody⟩

/-- **All scanners agree where a string ends.** Where the cutter, started outside strings at a quote,
closes the string behind the content `body`, the reader of strings stops right behind the same quote,
and the reader of comments leaves the string there. A quoted text is read back and leaves what follows
it, and it has no line feed. -/
theorem scanners_agree :
    (∀ k ∈ [D2.conventions, Dot.conventions], ∀ pos (state : CutState) body rest,
      state.quote = none → ClosesString (k.cutterInString? pos state) body rest →
        (∃ content, ∀ start, Reader.escapedString ⟨start, '"' :: (body ++ '"' :: rest)⟩ =
            .ok (content, ⟨start + byteSize ('"' :: (body ++ ['"'])), rest⟩)) ∧
          ∀ start lineStart, ClosesString (k.commentsInString? start lineStart) body rest) ∧
      (∀ k ∈ [Mermaid.conventions, PlantUml.conventions], ∀ pos (state : CutState) body rest,
        state.quote = none → ClosesString (k.cutterInString? pos state) body rest →
          (∀ start, Reader.rawString ⟨start, '"' :: (body ++ '"' :: rest)⟩ =
              .ok (body, ⟨start + byteSize ('"' :: (body ++ ['"'])), rest⟩)) ∧
            ∀ start lineStart, ClosesString (k.commentsInString? start lineStart) body rest) ∧
      ∀ text rest : List Char, '\n' ∉ Text.Quoted.encode text ∧
        ∀ start, Reader.escapedString ⟨start, Text.Quoted.encode text ++ rest⟩ =
          .ok (text, ⟨start + byteSize (Text.Quoted.encode text), rest⟩) := by
  refine ⟨?_, ?_, ?_⟩
  · intro k hk pos state body rest hquote h
    simp only [List.mem_cons, List.not_mem_nil, or_false] at hk
    rcases hk with rfl | rfl
    · exact escapedString_of_closesString D2.tidy rfl hquote h
    · exact escapedString_of_closesString Dot.tidy rfl hquote h
  · intro k hk pos state body rest hquote h
    simp only [List.mem_cons, List.not_mem_nil, or_false] at hk
    rcases hk with rfl | rfl
    · exact rawString_of_closesString Mermaid.tidy rfl hquote h
    · exact rawString_of_closesString PlantUml.tidy rfl hquote h
  · intro text rest
    refine ⟨Text.Quoted.feed_not_mem_encode text, fun start => ?_⟩
    have hread := Reader.escapedString_eq_ok (Text.Quoted.decodeTail?_flatMap_escape text rest) start
    rw [Text.Quoted.encode, List.cons_append, List.append_assoc]
    exact hread

/-- In D2 a quote behind a backslash closes no string for any of them. -/
theorem scanners_agree_escapedQuote :
    ClosesString (D2.conventions.cutterInString? 0 {}) ['a', '\\', '"', 'b'] [';', '#'] ∧
      (∃ content, ∀ start,
        Reader.escapedString ⟨start, '"' :: (['a', '\\', '"', 'b'] ++ '"' :: [';', '#'])⟩ =
          .ok (content, ⟨start + 6, [';', '#']⟩)) ∧
        ∀ start lineStart,
          ClosesString (D2.conventions.commentsInString? start lineStart) ['a', '\\', '"', 'b'] [';', '#'] := by
  have hcloses : ClosesString (D2.conventions.cutterInString? 0 {}) ['a', '\\', '"', 'b'] [';', '#'] :=
    (closesString_cutter_iff rfl).2 rfl
  exact ⟨hcloses, scanners_agree.1 D2.conventions List.mem_cons_self 0 {} _ _ rfl hcloses⟩

end Conventions

end Flowchart
