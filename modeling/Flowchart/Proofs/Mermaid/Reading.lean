import Flowchart.Mermaid.Reading
import Flowchart.Mermaid.Writing
import Flowchart.Proofs.Source.Cutting
import Flowchart.Proofs.Source.Reads

/-!
# The parts of a Mermaid statement

The written parts of a statement are even and are read as what they were written for. A label is
written in quotes unless nothing in it could be taken for a bracket, a comment or an entity code, so
**the mark that closes it is found behind it, whatever its text**. From labels the lemmas go up to
shapes, links, chains and styles.
-/

namespace Flowchart.Mermaid

open Conventions (Even)
open Reader (Reads Declines)
open Text (isBlank isWordChar)

/-! ## Conventions -/

theorem tidy : conventions.Tidy where
  length_mark := by decide
  head_mark := by decide
  endsMark_quote := by decide
  endsMark_separator := by
    intro c hc
    simp only [Conventions.isSeparator, conventions, Bool.true_and, Bool.or_eq_true,
      decide_eq_true_eq] at hc
    rcases hc with rfl | rfl <;> decide
  endsMark_bracket := by decide
  bracket := by decide

/-- A word is one statement. -/
theorem isStatement_word {word : List Char} (h : Text.IsWord word) :
    conventions.IsStatement word :=
  Conventions.isStatement_of_isWord (by decide) h

/-! ## Entity codes -/

namespace Label

/-- Characters that were decoded before are left out. -/
theorem decodeFrom_length_append (skipped rest : List Char) :
    decodeFrom skipped.length (skipped ++ rest) = decodeFrom 0 rest := by
  induction skipped with
  | nil => rfl
  | cons c cs ih => rw [List.length_cons, List.cons_append, decodeFrom, ih]

/-- An entity code is decoded to its character. -/
theorem decodeFrom_entity (name : List Char) {c : Char} (hname : ∀ d ∈ name, d ≠ ';')
    (h : entity? name = some c) (rest : List Char) :
    decodeFrom 0 ('#' :: (name ++ ';' :: rest)) = c :: decodeFrom 0 rest := by
  have hbreak : Text.breakAt? [';'] (name ++ ';' :: rest) = some (name, rest) :=
    Text.breakAt?_append hname rest
  have hcode : entityCode? (name ++ ';' :: rest) = some (c, name.length + 1) := by
    rw [entityCode?, hbreak]
    simp only [h, Option.map_some]
  have hskip := decodeFrom_length_append (name ++ [';']) rest
  rw [List.length_append, List.length_singleton, List.append_assoc, List.singleton_append] at hskip
  rw [decodeFrom, if_pos rfl, hcode]
  simp only [hskip]

/-- An entity code is decoded to its character, whatever follows. -/
theorem decodeFrom_escape_append (c : Char) (rest : List Char) :
    decodeFrom 0 (escape c ++ rest) = c :: decodeFrom 0 rest := by
  unfold escape
  split
  · exact decodeFrom_entity "35".toList (by decide) (by decide) rest
  · exact decodeFrom_entity "quot".toList (by decide) (by decide) rest
  · exact decodeFrom_entity "10".toList (by decide) (by decide) rest
  · exact decodeFrom_entity "13".toList (by decide) (by decide) rest
  · next hsharp _ _ _ =>
    have hne : c ≠ '#' := hsharp
    rw [List.singleton_append, decodeFrom, if_neg hne]

/-- **Decoding gives the characters back that were written as entity codes.** -/
theorem decode_flatMap_escape (label : List Char) : decode (label.flatMap escape) = label := by
  unfold decode
  induction label with
  | nil => rfl
  | cons c cs ih => rw [List.flatMap_cons, decodeFrom_escape_append, ih]

/-- A text without a number sign has no entity codes. -/
theorem decode_eq_self {label : List Char} (h : ∀ c ∈ label, c ≠ '#') : decode label = label := by
  unfold decode
  induction label with
  | nil => rfl
  | cons c cs ih =>
    rw [decodeFrom, if_neg (h c List.mem_cons_self), ih fun d hd => h d (List.mem_cons_of_mem c hd)]

/-- An escaped character keeps the string open. -/
theorem staysQuoted_escape_append (c : Char) (rest : List Char)
    (h : conventions.staysQuoted false rest = true) :
    conventions.staysQuoted false (escape c ++ rest) = true := by
  unfold escape
  split
  · simpa [Conventions.staysQuoted, conventions] using h
  · simpa [Conventions.staysQuoted, conventions] using h
  · simpa [Conventions.staysQuoted, conventions] using h
  · simpa [Conventions.staysQuoted, conventions] using h
  · next _ hquote hfeed _ =>
    have hne : c ≠ '"' ∧ c ≠ '\n' := ⟨hquote, hfeed⟩
    simpa [Conventions.staysQuoted, conventions, hne] using h

/-- No quote stands inside the quotes. -/
theorem ne_quote_of_mem_escape {c d : Char} (h : d ∈ escape c) : d ≠ '"' := by
  unfold escape at h
  split at h
  · revert d; decide
  · revert d; decide
  · revert d; decide
  · revert d; decide
  · next _ hquote _ _ =>
    rw [List.mem_singleton.1 h]
    exact hquote

/-- A label without quotes: it is trimmed, and nothing in it is reserved. -/
structure IsBare (label : List Char) : Prop where
  ne_nil : label ≠ []
  trim_eq : Text.trim label = label
  head : ∀ c ∈ label.head?, c ∉ reservedFirst
  not_reserved : ∀ c ∈ label, c ∉ reserved

/-- A label is written in quotes, or it is bare and written as it is. -/
theorem encode_cases (label : List Char) :
    encode label = '"' :: (label.flatMap escape ++ ['"']) ∨
      (encode label = label ∧ IsBare label) := by
  unfold encode
  split
  · exact Or.inl rfl
  · next hbare =>
    simp only [needsQuotes, Bool.or_eq_true, not_or, bne_iff_ne, ne_eq, not_not, Bool.not_eq_true,
      List.any_eq_false, List.isEmpty_eq_false_iff, List.contains_iff_mem] at hbare
    obtain ⟨⟨⟨hne, htrim⟩, hhead⟩, hall⟩ := hbare
    refine Or.inr ⟨rfl, hne, htrim, fun c hc => ?_, hall⟩
    rw [Option.mem_def.1 hc] at hhead
    simpa using hhead

theorem IsBare.ne_of_mem {label : List Char} (h : IsBare label) {c d : Char} (hc : c ∈ label)
    (hd : d ∈ reserved) : c ≠ d := by
  rintro rfl
  exact h.not_reserved c hc hd

theorem IsBare.isBlank_head {label : List Char} (h : IsBare label) :
    ∀ c ∈ label.head?, isBlank c = false := by
  have hhead := Text.head?_trim label
  rwa [h.trim_eq] at hhead

theorem IsBare.isBlank_getLast {label : List Char} (h : IsBare label) :
    ∀ c ∈ label.getLast?, isBlank c = false := by
  have hlast := Text.getLast?_trim label
  rwa [h.trim_eq] at hlast

/-- An encoded label is one statement. -/
theorem isStatement_encode (label : List Char) : conventions.IsStatement (encode label) := by
  rcases encode_cases label with h | ⟨h, hbare⟩
  · rw [h]
    exact ⟨fun due => Even.of_quoted (Conventions.staysQuoted_flatMap staysQuoted_escape_append label),
      ⟨'"', rfl, rfl⟩, ⟨'"', by rw [← List.cons_append, List.getLast?_concat, Option.mem_def], rfl⟩⟩
  · rw [h]
    refine ⟨fun due => Even.of_plain fun c hc => ?_, ?_, ?_⟩
    · refine Conventions.isPlain_of_not_mem_specials fun hmem => hbare.not_reserved c hc ?_
      have hsub : ∀ d ∈ conventions.specials, d ∈ reserved := by decide
      exact hsub c hmem
    · exact ⟨label.head hbare.ne_nil, List.head?_eq_some_head _,
        hbare.isBlank_head _ (List.head?_eq_some_head _)⟩
    · exact ⟨label.getLast hbare.ne_nil, List.getLast?_eq_some_getLast _,
        hbare.isBlank_getLast _ (List.getLast?_eq_some_getLast _)⟩

end Label

/-- In quotes a label is read up to the quote that closes it, and then its mark. -/
theorem reads_closedLabel_quoted (label : List Char) {m : Char} {ms : List Char}
    (hblank : isBlank m = false) (unclosed : Fault) (start : Nat) (rest : List Char) :
    Reads (closedLabel [m :: ms] unclosed start)
      ('"' :: (label.flatMap Label.escape ++ '"' :: (m :: ms ++ rest))) (· = String.ofList label)
      rest := by
  have hopen : ['"'].isPrefixOf (Text.trimStart
      ('"' :: (label.flatMap Label.escape ++ '"' :: (m :: ms ++ rest)))) = true := by
    rw [Text.trimStart_eq_self (Text.head?_cons (by decide) _)]
    rfl
  have hbody : ∀ c ∈ label.flatMap Label.escape, c ≠ '"' := by
    intro c hc
    obtain ⟨d, -, hd⟩ := List.mem_flatMap.1 hc
    exact Label.ne_quote_of_mem_escape hd
  have haccept : Reads (acceptAny [m :: ms]) (m :: ms ++ rest) (· = true) rest := by
    rw [acceptAny]
    exact Reads.accept_then (Reads.pure rfl)
  unfold closedLabel
  refine Reads.cursor fun c hc => ?_
  rw [hc, hopen, if_pos rfl]
  refine (Reader.reads_noBlanks (Text.head?_cons (by decide) _)).bind fun _ _ => ?_
  refine (Reader.reads_rawString hbody).andThen ?_
  refine (Reader.reads_noBlanks (Text.head?_cons hblank _)).bind fun _ _ => ?_
  refine haccept.andThen ?_
  exact Reads.pure (by rw [Label.decode_flatMap_escape])

/-- In a bare label no reserved character stands, so its mark is found behind it. -/
theorem reads_closedLabel_bare {label : List Char} (hbare : Label.IsBare label) {m : Char}
    {ms : List Char} (hm : m ∈ Label.reserved) (unclosed : Fault) (start : Nat)
    (rest : List Char) :
    Reads (closedLabel [m :: ms] unclosed start) (label ++ (m :: ms ++ rest))
      (· = String.ofList label) rest := by
  have hhead : ∀ c ∈ (label ++ (m :: ms ++ rest)).head?, isBlank c = false ∧ c ≠ '"' := by
    intro c hc
    rw [List.head?_append, List.head?_eq_some_head hbare.ne_nil, Option.some_or] at hc
    obtain rfl : label.head hbare.ne_nil = c := by simpa using hc
    exact ⟨hbare.isBlank_head _ (List.head?_eq_some_head _),
      hbare.ne_of_mem (List.head_mem _) (by decide)⟩
  have hopen : ['"'].isPrefixOf (Text.trimStart (label ++ (m :: ms ++ rest))) = false := by
    rw [Text.trimStart_eq_self fun c hc => (hhead c hc).1]
    exact Text.isPrefixOf_eq_false_of_head fun c hc => (hhead c hc).2
  have hbreak : breakAtEarliest? [m :: ms] (label ++ (m :: ms ++ rest)) = some (label, rest) := by
    have hfound : Text.breakAt? (m :: ms) (label ++ (m :: ms ++ rest)) = some (label, rest) :=
      Text.breakAt?_append (fun c hc => hbare.ne_of_mem hc hm) rest
    simp only [breakAtEarliest?, List.foldl_cons, List.foldl_nil, hfound]
  unfold closedLabel
  refine Reads.cursor fun c hc => ?_
  rw [hc, hopen, if_neg Bool.false_ne_true, hbreak]
  refine Reader.reads_moveTo.bind fun _ _ => ?_
  exact Reads.pure (by
    rw [hbare.trim_eq, Label.decode_eq_self fun c hc => hbare.ne_of_mem hc (by decide)])

/-- **A written label is read up to the mark that closes it.** -/
theorem reads_closedLabel (label : List Char) {m : Char} {ms : List Char}
    (hm : m ∈ Label.reserved) (hblank : isBlank m = false) (unclosed : Fault) (start : Nat)
    (rest : List Char) :
    Reads (closedLabel [m :: ms] unclosed start) (Label.encode label ++ (m :: ms ++ rest))
      (· = String.ofList label) rest := by
  rcases Label.encode_cases label with h | ⟨h, hbare⟩
  · rw [h, List.cons_append, List.append_assoc, List.singleton_append]
    exact reads_closedLabel_quoted label hblank unclosed start rest
  · rw [h]
    exact reads_closedLabel_bare hbare hm unclosed start rest

/-! ## Shapes -/

/-- What starts a written label extends no opening bracket. -/
theorem head?_encode (label : List Char) :
    ∃ c, (Label.encode label).head? = some c ∧ ∀ d ∈ ['[', '(', '{', '/', '\\'], c ≠ d := by
  rcases Label.encode_cases label with h | ⟨h, hbare⟩
  · rw [h]
    exact ⟨'"', rfl, by decide⟩
  · rw [h]
    refine ⟨label.head hbare.ne_nil, List.head?_eq_some_head _, fun d hd hcd => ?_⟩
    have hsub : ∀ d ∈ ['[', '(', '{', '/', '\\'], d ∈ Label.reserved ∨ d ∈ Label.reservedFirst := by
      decide
    rcases hsub d hd with hd | hd
    · exact hbare.ne_of_mem (List.head_mem hbare.ne_nil) hd hcd
    · rw [← hcd] at hd
      exact hbare.head _ (List.head?_eq_some_head _) hd

/-- **The bracket in front of a written label is the one of its node type.** -/
theorem bracket?_opening (t : NodeType) (label rest : List Char) :
    bracket? (opening t ++ (Label.encode label ++ rest)) = some (bracketOf t) := by
  obtain ⟨c, hc, hne⟩ := head?_encode label
  obtain ⟨tail, htail⟩ : ∃ tail, Label.encode label ++ rest = c :: tail := by
    cases hlabel : Label.encode label with
    | nil => simp [hlabel] at hc
    | cons d ds =>
      obtain rfl : d = c := by simpa [hlabel] using hc
      exact ⟨ds ++ rest, rfl⟩
  simp only [List.mem_cons, List.not_mem_nil, or_false, forall_eq_or_imp, forall_eq] at hne
  obtain ⟨hsquare, hround, hcurly, hslash, hback⟩ := hne
  -- a longer opening bracket would need `c` to be one of the five characters
  rw [htail]
  cases t <;>
    simp [bracket?, brackets, bracketOf, opening, Ne.symm hsquare, Ne.symm hround, Ne.symm hcurly,
      Ne.symm hslash, Ne.symm hback]

/-- What closes a shape begins with a reserved mark. -/
theorem closing_eq (t : NodeType) :
    ∃ m ms, closing t = m :: ms ∧ m ∈ Label.reserved ∧ isBlank m = false := by
  cases t <;> exact ⟨_, _, rfl, by decide, by decide⟩

/-- **A shape is read with its node type and its label.** -/
theorem reads_shape (t : NodeType) (label rest : List Char) :
    Reads shape (opening t ++ (Label.encode label ++ (closing t ++ rest)))
      (· = (t, String.ofList label)) rest := by
  obtain ⟨m, ms, hclosing, hm, hblank⟩ := closing_eq t
  unfold shape
  refine Reads.cursor fun c hc => ?_
  rw [hc, bracket?_opening]
  refine Reads.accept ?_
  rw [bracketOf, hclosing]
  exact (reads_closedLabel label hm hblank _ _ rest).andThen (Reads.pure rfl)

/-! ## Endpoints -/

/-- A word with a shape behind it declares a node. -/
theorem reads_endpoint_shape {word : List Char} (hword : Text.IsWord word) (t : NodeType)
    (label rest : List Char) :
    Reads endpoint (word ++ (opening t ++ (Label.encode label ++ (closing t ++ rest))))
      (fun e => e.id.value = String.ofList word ∧ e.shape = some (t, String.ofList label)) rest := by
  have hopening : ∀ c ∈ (opening t ++ (Label.encode label ++ (closing t ++ rest))).head?,
      isWordChar c = false := by
    cases t <;> exact Text.head?_cons (by decide) _
  let P := fun m : Spanned (List Char) × Option (NodeType × String) =>
    m.1.value = word ∧ m.2 = some (t, String.ofList label)
  have hshape : Reads (some <$> shape) (opening t ++ (Label.encode label ++ (closing t ++ rest)))
      (· = some (t, String.ofList label)) rest :=
    (reads_shape t label rest).map fun a ha => by rw [ha]
  unfold endpoint
  refine (Reads.spanned (P := P) ?_).bind fun m hm => Reads.pure ⟨by rw [hm.1], hm.2⟩
  refine ((Reader.reads_identifier hword hopening).named _).spanned.bind fun id hid => ?_
  refine Reads.cursor fun c hc => ?_
  rw [hc, bracket?_opening]
  exact hshape.bind fun s hs => Reads.pure ⟨hid, hs⟩

/-- A word without brackets only names a node. -/
theorem reads_endpoint_word {word rest : List Char} (hword : Text.IsWord word)
    (hrest : ∀ c ∈ rest.head?, isWordChar c = false) (hbracket : bracket? rest = none) :
    Reads endpoint (word ++ rest)
      (fun e => e.id.value = String.ofList word ∧ e.shape = none) rest := by
  let P := fun m : Spanned (List Char) × Option (NodeType × String) =>
    m.1.value = word ∧ m.2 = none
  unfold endpoint
  refine (Reads.spanned (P := P) ?_).bind fun m hm => Reads.pure ⟨by rw [hm.1], hm.2⟩
  refine ((Reader.reads_identifier hword hrest).named _).spanned.bind fun id hid => ?_
  refine Reads.cursor fun c hc => ?_
  rw [hc, hbracket]
  exact Reads.pure_bind (Reads.pure ⟨hid, rfl⟩)

/-! ## Links -/

/-- A label between bars is read in front of any text. -/
theorem reads_pipeLabel?_some (label : String) (rest : List Char) :
    Reads pipeLabel? (pipeLabel (some label) ++ rest) (· = some label) rest := by
  unfold pipeLabel?
  refine Reads.position fun start => ?_
  have hlabel : Reads (closedLabel [['|']] unclosedEdgeLabel start)
      (Label.encode label.toList ++ ('|' :: rest)) (· = String.ofList label.toList) rest :=
    reads_closedLabel label.toList (by decide) (by decide) unclosedEdgeLabel start rest
  rw [String.ofList_toList] at hlabel
  have htext : pipeLabel (some label) ++ rest =
      ['|'] ++ (Label.encode label.toList ++ ('|' :: rest)) := by
    simp [pipeLabel]
  rw [htext]
  refine Reads.accept_then ?_
  exact hlabel.map fun a ha => by rw [ha]

/-- The label on a written arrow is read, if there is one. -/
theorem reads_pipeLabel? (label : Option String) {rest : List Char}
    (hrest : ∀ c ∈ rest.head?, c ≠ '|') :
    Reads pipeLabel? (pipeLabel label ++ rest) (· = label) rest := by
  cases label with
  | none =>
    unfold pipeLabel?
    refine Reads.position fun start => ?_
    exact Reads.accept_else (Text.isPrefixOf_eq_false_of_head hrest) (Reads.pure rfl)
  | some label => exact reads_pipeLabel?_some label rest

/-- **A written arrow is read with its edge type and its label**, and then the blank behind it. -/
theorem reads_link (t : EdgeType) (label : Option String) {rest : List Char}
    (hrest : ∀ c ∈ rest.head?, isBlank c = false ∧ c ≠ '|') :
    ∃ left, Reads link (arrow t ++ (pipeLabel label ++ ' ' :: rest)) (· = ⟨t, label⟩) left ∧
      Reads Reader.blanks left (fun _ => True) rest := by
  have hblank : ∀ c ∈ rest.head?, isBlank c = false := fun c hc => (hrest c hc).1
  have hlength : 2 ≤ (arrow t).length := by cases t <;> decide
  have hstrokes : ∀ c ∈ arrow t, isArrowChar c = true := by cases t <;> decide
  have hend : ∀ c ∈ (pipeLabel label ++ ' ' :: rest).head?, isArrowChar c = false := by
    cases label <;> exact Text.head?_cons (by decide) _
  have hknown : readArrow? (arrow t) = some t := by cases t <;> decide
  have harrow := (Reader.reads_takeAtLeast hlength hstrokes hend).named "arrow"
  -- where there is no label, the blank belongs to the link
  cases label with
  | none =>
    refine ⟨rest, ?_, Reader.reads_noBlanks hblank⟩
    unfold link
    refine Reads.position fun start => harrow.andThen ?_
    simp only [hknown]
    refine (Reader.reads_space hblank).bind fun _ _ => ?_
    exact (reads_pipeLabel? none fun c hc => (hrest c hc).2).andThen (Reads.pure rfl)
  | some label =>
    refine ⟨' ' :: rest, ?_, Reader.reads_space hblank⟩
    unfold link
    refine Reads.position fun start => harrow.andThen ?_
    simp only [hknown]
    refine (Reader.reads_noBlanks (Text.head?_cons (by decide) _)).bind fun _ _ => ?_
    exact (reads_pipeLabel? (some label) (Text.head?_cons (by decide) _)).andThen (Reads.pure rfl)

/-! ## Chains -/

theorem reads_links_nil (fuel : Nat) : Reads (links fuel) [] (· = []) [] := by
  cases fuel with
  | zero => exact Reads.pure rfl
  | succ fuel =>
    unfold links
    refine Reads.cursor fun c hc => ?_
    rw [hc]
    exact Reads.pure rfl

variable {word word' : List Char}

/-- **A word with a shape is read as a chain of one node.** -/
theorem reads_chain_node (hword : Text.IsWord word) (t : NodeType) (label : List Char) :
    Reads chain (word ++ (opening t ++ (Label.encode label ++ closing t)))
      (fun chain => chain.first.id.value = String.ofList word ∧
        chain.first.shape = some (t, String.ofList label) ∧ chain.rest = []) [] := by
  have hfirst := reads_endpoint_shape hword t label []
  rw [List.append_nil] at hfirst
  unfold chain
  refine hfirst.bind fun first hfirst => ?_
  refine Reads.cursor fun c hc => ?_
  rw [hc]
  exact (reads_links_nil _).andThen (Reads.pure ⟨hfirst.1, hfirst.2, rfl⟩)

/-- An arrow and a word are read as the one link of a chain. -/
theorem reads_links_cons (hword : Text.IsWord word) (t : EdgeType) (label : Option String)
    (fuel : Nat) :
    Reads (links (fuel + 1)) (' ' :: (arrow t ++ (pipeLabel label ++ ' ' :: word)))
      (fun rest => ∃ target, (target.id.value = String.ofList word ∧ target.shape = none) ∧
        rest = [(⟨t, label⟩, target)]) [] := by
  have hhead : ∀ c ∈ word.head?, isBlank c = false ∧ c ≠ '|' := fun c hc =>
    ⟨hword.isBlank_eq_false c (List.mem_of_head? hc),
      hword.ne_of_mem (List.mem_of_head? hc) (by decide)⟩
  have harrow : ∀ c ∈ (arrow t ++ (pipeLabel label ++ ' ' :: word)).head?, isBlank c = false := by
    cases t <;> exact Text.head?_cons (by decide) _
  obtain ⟨left, hlink, hleft⟩ := reads_link t label hhead
  have htarget : Reads endpoint (word ++ [])
      (fun e => e.id.value = String.ofList word ∧ e.shape = none) [] :=
    reads_endpoint_word hword (by simp) rfl
  rw [List.append_nil] at htarget
  unfold links
  refine Reads.cursor fun c hc => ?_
  rw [hc, if_neg]
  · refine (Reader.reads_space harrow).bind fun _ _ => ?_
    refine hlink.andThen ?_
    refine hleft.bind fun _ _ => ?_
    refine htarget.bind fun target htarget => ?_
    exact (reads_links_nil fuel).andThen (Reads.pure ⟨target, htarget, rfl⟩)
  · cases t <;> simp [arrow, isBlank]

/-- **Two words with an arrow between them are read as a chain of one edge.** -/
theorem reads_chain_edge (hword : Text.IsWord word) (hword' : Text.IsWord word') (t : EdgeType)
    (label : Option String) :
    Reads chain (word ++ ' ' :: (arrow t ++ (pipeLabel label ++ ' ' :: word')))
      (fun chain => ∃ target, (chain.first.id.value = String.ofList word ∧
          chain.first.shape = none) ∧
        (target.id.value = String.ofList word' ∧ target.shape = none) ∧
        chain.rest = [(⟨t, label⟩, target)]) [] := by
  unfold chain
  refine (reads_endpoint_word hword (Text.head?_cons (by decide) _) ?_).bind fun first hfirst => ?_
  · simp [bracket?, brackets, bracketOf, opening]
  refine Reads.cursor fun c hc => ?_
  rw [hc, List.length_cons]
  refine (reads_links_cons hword' t label _).bind fun rest hrest => ?_
  obtain ⟨target, htarget, rfl⟩ := hrest
  exact Reads.pure ⟨target, hfirst, htarget, rfl⟩

/-- No style is read in front of an arrow. -/
theorem declines_style {rest : List Char} (t : EdgeType) :
    Declines style ("style".toList ++ ' ' :: (arrow t ++ rest)) := by
  have hblank : ∀ c ∈ (arrow t ++ rest).head?, isBlank c = false := by
    cases t <;> exact Text.head?_cons (by decide) _
  have hword : ∀ c ∈ (arrow t ++ rest).head?, isWordChar c = false := by
    cases t <;> exact Text.head?_cons (by decide) _
  have hkeyword := Reader.reads_keyword "style" ⟨by decide, by decide⟩ (arrow t ++ rest)
  unfold style
  refine hkeyword.bind_declines fun _ _ => ?_
  refine (Reader.reads_someSpace hblank).bind_declines fun _ _ => ?_
  exact (Reader.declines_identifier hword).spanned.bind

/-! ## Styles -/

/-- The attribute can be written in a style: its key is not empty, and no character in it separates
attributes, ends the statement or starts a string or a comment. -/
structure FitsStyle (a : String × String) : Prop where
  key_ne : a.1 ≠ ""
  key : ∀ c ∈ a.1.toList, isBlank c = false ∧ c ∉ [',', ';', '"', '%', ':']
  value : ∀ c ∈ a.2.toList, isBlank c = false ∧ c ∉ [',', ';', '"', '%']

instance (a : String × String) : Decidable (FitsStyle a) :=
  decidable_of_iff (a.1 ≠ "" ∧
      (∀ c ∈ a.1.toList, isBlank c = false ∧ c ∉ [',', ';', '"', '%', ':']) ∧
      ∀ c ∈ a.2.toList, isBlank c = false ∧ c ∉ [',', ';', '"', '%'])
    ⟨fun h => ⟨h.1, h.2.1, h.2.2⟩, fun h => ⟨h.key_ne, h.key, h.value⟩⟩

/-- An attribute as it is written in a style. -/
def styleEntry (a : String × String) : List Char := a.1.toList ++ ':' :: a.2.toList

/-- An attribute that fits is read back from its entry. -/
theorem FitsStyle.property?_eq {a : String × String} (h : FitsStyle a) :
    property? (styleEntry a) = some a := by
  have hcolon : ∀ c ∈ a.1.toList, decide (c ≠ ':') = true := by
    intro c hc
    have hne := (h.key c hc).2
    simp only [List.mem_cons, not_or] at hne
    simpa using hne.2.2.2.2.1
  have htrim : ∀ cs : List Char, (∀ c ∈ cs, isBlank c = false) → Text.trim cs = cs := fun cs hcs =>
    Text.trim_eq_self (fun c hc => hcs c (List.mem_of_head? hc))
      fun c hc => hcs c (List.mem_of_getLast? hc)
  have hkey : Text.trim a.1.toList = a.1.toList := htrim _ fun c hc => (h.key c hc).1
  have hvalue : Text.trim a.2.toList = a.2.toList := htrim _ fun c hc => (h.value c hc).1
  have hne : a.1.toList.isEmpty = false := by
    rw [List.isEmpty_eq_false_iff]
    simpa using h.key_ne
  rw [property?, styleEntry, Text.takeWhile_append_of_ends hcolon (Text.head?_cons (by decide) _),
    Text.dropWhile_append_of_ends hcolon (Text.head?_cons (by decide) _), List.drop_succ_cons,
    List.drop_zero]
  simp only [hkey, hvalue, hne, Bool.false_eq_true, if_false, String.ofList_toList]

/-- So are all attributes of a style. -/
theorem mapM_property? {entries : List (String × String)} (h : ∀ a ∈ entries, FitsStyle a) :
    (entries.map styleEntry).mapM property? = some entries := by
  induction entries with
  | nil => rfl
  | cons a rest ih =>
    rw [List.map_cons, List.mapM_cons, (h a List.mem_cons_self).property?_eq,
      ih fun b hb => h b (List.mem_cons_of_mem a hb)]
    rfl

/-- The attributes of a style are plain characters, none of them blank. -/
theorem plain_of_mem_styles {entries : List (String × String)} (h : ∀ a ∈ entries, FitsStyle a) :
    ∀ c ∈ [','].intercalate (entries.map styleEntry),
      conventions.isPlain c = true ∧ isBlank c = false := by
  have hplain : ∀ c : Char, c ∉ [';', '"', '%'] → isBlank c = false →
      conventions.isPlain c = true := by
    intro c hc hblank
    refine Conventions.isPlain_of_not_mem_specials fun hmem => ?_
    have hspecial : ∀ d ∈ conventions.specials, d ∈ [';', '"', '%'] ∨ isBlank d = true := by decide
    rcases hspecial c hmem with hd | hd
    · exact hc hd
    · rw [hblank] at hd
      exact Bool.false_ne_true hd
  intro c hc
  rcases Text.mem_of_mem_intercalate hc with hcomma | ⟨entry, hentry, hc⟩
  · rw [List.mem_singleton.1 hcomma]
    decide
  · obtain ⟨a, ha, rfl⟩ := List.mem_map.1 hentry
    rw [styleEntry, List.mem_append, List.mem_cons] at hc
    rcases hc with hc | rfl | hc
    · obtain ⟨hblank, hno⟩ := (h a ha).key c hc
      have hsub : ∀ d ∈ [';', '"', '%'], d ∈ [',', ';', '"', '%', ':'] := by decide
      exact ⟨hplain c (fun hmem => hno (hsub c hmem)) hblank, hblank⟩
    · decide
    · obtain ⟨hblank, hno⟩ := (h a ha).value c hc
      exact ⟨hplain c (fun hmem => hno (List.mem_cons_of_mem ',' hmem)) hblank, hblank⟩

/-- **A written style is read with the id and the attributes in order.** -/
theorem reads_style (hword : Text.IsWord word) {entries : List (String × String)}
    (hne : entries ≠ []) (h : ∀ a ∈ entries, FitsStyle a) :
    Reads style ("style ".toList ++ (word ++ ' ' :: [','].intercalate (entries.map styleEntry)))
      (fun s => s.1.value = String.ofList word ∧ s.2 = entries) [] := by
  have hstart : ∀ c ∈ ([','].intercalate (entries.map styleEntry)).head?, isBlank c = false :=
    fun c hc => (plain_of_mem_styles h c (List.mem_of_head? hc)).2
  have hsplit : ([','].intercalate (entries.map styleEntry)).splitOn ',' = entries.map styleEntry := by
    refine List.splitOn_intercalate ',' ?_ (by simpa using hne)
    intro entry hentry hcomma
    obtain ⟨a, ha, rfl⟩ := List.mem_map.1 hentry
    rw [styleEntry, List.mem_append, List.mem_cons] at hcomma
    rcases hcomma with hc | hc | hc
    · exact ((h a ha).key _ hc).2 (by decide)
    · revert hc; decide
    · exact ((h a ha).value _ hc).2 (by decide)
  have hkeyword := Reader.reads_keyword "style" ⟨by decide, by decide⟩
    (word ++ ' ' :: [','].intercalate (entries.map styleEntry))
  have hid : ∀ c ∈ (word ++ ' ' :: [','].intercalate (entries.map styleEntry)).head?,
      isBlank c = false := hword.isBlank_head?_append _
  unfold style
  refine hkeyword.andThen ?_
  refine (Reader.reads_someSpace hid).bind fun _ _ => ?_
  refine (Reader.reads_identifier hword (Text.head?_cons (by decide) _)).spanned.bind fun id hid => ?_
  refine (Reader.reads_someSpace hstart).bind fun _ _ => ?_
  refine Reads.position fun start => ?_
  refine Reader.reads_takeAll.andThen ?_
  simp only [hsplit, mapM_property? h]
  exact Reads.pure ⟨by rw [hid], rfl⟩

end Flowchart.Mermaid
