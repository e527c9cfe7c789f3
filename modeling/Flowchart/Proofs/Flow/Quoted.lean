import Flowchart.Proofs.Flow.Kinds
import Flowchart.Proofs.Flow.Parsing

/-!
# Every text can be a step

A step may be written in double quotes, and the scanner undoes the escapes of `Text.Quoted.encode`
exactly, whatever the text contains: arrows, brackets, comment marks, quotes or line feeds. What stands
between two such steps is an arrow or a line feed, with any number of spaces around it. **So every list
of texts has a source that is read as the chain of these steps**, with the labels unchanged.
-/

namespace Flowchart.Flow

open Text (isBlank)

variable {cs rest : List Char} {values : List Token}

/-! ## Quoted strings -/

namespace Literal

/-- One character is read from its written form. -/
theorem read_escape_append (c : Char) (rest : List Char) :
    read (Text.Quoted.escape c ++ rest) = (read rest).cons c := by
  unfold Text.Quoted.escape
  split
  · simp [read, unescape?]
  · simp [read, unescape?]
  · simp [read, unescape?]
  · simp [read, unescape?]
  · next hquote hslash hfeed _ =>
    rw [List.singleton_append, read]
    · exact hquote
    · exact hfeed
    · exact fun h _ => hslash h
    · exact fun _ _ h _ => hslash h

/-- **A quoted text is read back**, up to its closing quote. -/
theorem read_flatMap_escape (cs rest : List Char) :
    read (cs.flatMap Text.Quoted.escape ++ '"' :: rest) = closed cs rest := by
  induction cs with
  | nil => rw [List.flatMap_nil, List.nil_append, read]
  | cons c cs ih => rw [List.flatMap_cons, List.append_assoc, read_escape_append, ih, cons]

end Literal

/-! ## Scanning -/

/-- Wherever it starts, the text has no problems, and these are its tokens that mean something. -/
def Scans (cs : List Char) (values : List Token) : Prop :=
  ∀ pos, ∃ ts : List (Spanned Token),
    scan pos cs = ts.map Lexeme.token ∧ (significant ts).map Spanned.value = values

namespace Scans

theorem nil : Scans [] [] := fun pos => ⟨[], by rw [scan]; rfl, rfl⟩

/-- A token in front. -/
theorem token {c : Char} {t : Token}
    (hone : ∀ pos, ∃ span, scanOne pos c cs = (.token ⟨t, span⟩, rest)) (h : Scans rest values) :
    Scans (c :: cs) (if t.isTrivia then values else t :: values) := by
  intro pos
  obtain ⟨span, hone⟩ := hone pos
  obtain ⟨ts, hscan, hvalues⟩ := h (pos + (Text.byteSize (c :: cs) - Text.byteSize rest))
  refine ⟨⟨t, span⟩ :: ts, ?_, ?_⟩
  · rw [scan, hone, List.map_cons]
    exact congrArg _ hscan
  · unfold significant at hvalues ⊢
    cases htrivia : t.isTrivia with
    | true => simpa [htrivia] using hvalues
    | false => simpa [htrivia] using hvalues

/-- A quoted text in front. -/
theorem quoted (text : List Char) (h : Scans rest values) :
    Scans (Text.Quoted.encode text ++ rest) (.quoted text :: values) := by
  have htext : Text.Quoted.encode text ++ rest =
      '"' :: (text.flatMap Text.Quoted.escape ++ '"' :: rest) := by simp [Text.Quoted.encode]
  rw [htext]
  refine h.token (t := .quoted text) fun pos => ?_
  rw [scanOne, if_neg (by simp), if_pos rfl, scanString,
    Literal.read_flatMap_escape]
  exact ⟨_, rfl⟩

/-- Spaces in front of something else mean nothing. -/
theorem spaces (count : Nat) (hrest : ∀ c ∈ rest.head?, isSpace c = false) (h : Scans rest values) :
    Scans (List.replicate count ' ' ++ rest) values := by
  cases count with
  | zero => exact h
  | succ count =>
    have hspace : ∀ c ∈ List.replicate count ' ', isSpace c = true := by
      intro c hc
      rw [List.eq_of_mem_replicate hc]
      decide
    rw [List.replicate_succ, List.cons_append]
    refine h.token (t := .blank) fun pos => ?_
    have hblank : scanOne pos ' ' (List.replicate count ' ' ++ rest) =
        (.ofText pos (' ' :: (List.replicate count ' ' ++ rest).takeWhile isSpace) .blank,
          (List.replicate count ' ' ++ rest).dropWhile isSpace) := rfl
    rw [hblank, Text.dropWhile_append_of_ends hspace hrest]
    exact ⟨_, rfl⟩

end Scans

/-! ## Steps and what joins them -/

/-- A mark between two steps. -/
inductive Mark where
  | arrow
  | newline
  deriving DecidableEq, Repr

namespace Mark

/-- The token of a mark. -/
def token : Mark → Token
  | arrow => .arrow
  | newline => .newline

/-- The text of a mark. -/
def text : Mark → List Char
  | arrow => ['-', '>']
  | newline => ['\n']

theorem head?_text_append (mark : Mark) (rest : List Char) :
    ∀ c ∈ (mark.text ++ rest).head?, isSpace c = false := by
  cases mark with
  | arrow | newline =>
    rintro c ⟨rfl⟩
    decide

end Mark

/-- What stands between two steps: a mark, with this many spaces before and after it. An arrow with one
space on each side is the usual joint. -/
structure Joint where
  before : Nat
  mark : Mark
  after : Nat
  deriving DecidableEq, Repr

/-- The text of a joint. -/
def Joint.text (joint : Joint) : List Char :=
  List.replicate joint.before ' ' ++ (joint.mark.text ++ List.replicate joint.after ' ')

/-- The text of a first step and of further ones behind their joints, each label in quotes. -/
def quotedText (first : String) (steps : List (Joint × String)) : List Char :=
  Text.Quoted.encode first.toList ++
    steps.flatMap fun step => step.1.text ++ Text.Quoted.encode step.2.toList

/-- The tokens of these steps that mean something. -/
def quotedTokens (first : String) (steps : List (Joint × String)) : List Token :=
  .quoted first.toList :: steps.flatMap fun step => [step.1.mark.token, .quoted step.2.toList]

/-- A mark between steps is scanned as its token. -/
theorem Scans.mark (mark : Mark) (h : Scans rest values) :
    Scans (mark.text ++ rest) (mark.token :: values) := by
  cases mark with
  | arrow => exact h.token (t := .arrow) fun _ => ⟨_, rfl⟩
  | newline => exact h.token (t := .newline) fun _ => ⟨_, rfl⟩

/-- A joint in front of something that is no space. -/
theorem Scans.joint (joint : Joint) (hrest : ∀ c ∈ rest.head?, isSpace c = false)
    (h : Scans rest values) : Scans (joint.text ++ rest) (joint.mark.token :: values) := by
  rw [Joint.text, List.append_assoc, List.append_assoc]
  exact ((h.spaces joint.after hrest).mark joint.mark).spaces joint.before
    (joint.mark.head?_text_append _)

/-- **Quoted steps have the tokens of the steps and the joints**, whatever the labels contain. -/
theorem scans_quotedText (first : String) (steps : List (Joint × String)) :
    Scans (quotedText first steps) (quotedTokens first steps) := by
  induction steps generalizing first with
  | nil => exact Scans.nil.quoted first.toList
  | cons step steps ih =>
    have hquote : ∀ c ∈ (quotedText step.2 steps).head?, isSpace c = false := by
      rintro c ⟨rfl⟩
      decide
    have hnext := ((ih step.2).joint step.1 hquote).quoted first.toList
    rw [quotedText, List.flatMap_cons, List.append_assoc]
    exact hnext

/-- What scans gives tokens, of which the significant ones have these values. -/
theorem exists_tokens {text : List Char} (h : Scans text values) :
    ∃ ts, tokens text = .ok ts ∧ (significant ts).map Spanned.value = values := by
  obtain ⟨ts, hscan, hvalues⟩ := h 0
  exact ⟨ts, tokens_eq_ok hscan, hvalues⟩

/-! ## Chains of plain steps -/

/-- Plain steps behind a front. -/
def Links.ofLabels : List String → Links
  | [] => .nil
  | label :: labels => .next false none (.step label) (ofLabels labels)

/-- The chain of plain steps with these labels. -/
def Chain.ofLabels (first : String) (labels : List String) : Chain :=
  .start none (.step first) (.ofLabels labels)

theorem Links.derives_ofLabels {steps : List (Joint × String)} {ts : List (Spanned Token)}
    (hts : ts.map Spanned.value = steps.flatMap fun step => [step.1.mark.token, .quoted step.2.toList]) :
    (Links.ofLabels (steps.map Prod.snd)).Derives ts [] := by
  induction steps generalizing ts with
  | nil =>
    obtain rfl : ts = [] := List.map_eq_nil_iff.1 hts
    exact .nil (List.forall_mem_nil _)
  | cons step steps ih =>
    obtain ⟨joint, us, rfl, hjoint, hus⟩ := List.map_eq_cons_iff.1 hts
    obtain ⟨⟨quoted, span⟩, vs, rfl, rfl, hvs⟩ := List.map_eq_cons_iff.1 hus
    have hseps : AreSeparators [joint] := by
      refine List.forall_mem_singleton.2 ?_
      rw [hjoint]
      cases step.1.mark <;> rfl
    have hmerge : hasMerge [joint] = false := by
      simp only [hasMerge, List.any_cons, List.any_nil, Bool.or_false, hjoint]
      cases step.1.mark <;> rfl
    have hitem : (Item.step (String.ofList step.2.toList)).Derives
        (⟨.quoted step.2.toList, span⟩ :: vs) vs := .quoted
    have hnext := Links.Derives.next hseps (List.cons_ne_nil _ _) .none hitem (ih hvs)
    rw [hmerge, String.ofList_toList] at hnext
    exact hnext

/-- The edges between this many steps behind the first, whose number is given. -/
def plainEdges (first count : Nat) : List StepEdge :=
  (List.range' first count).map fun k => ⟨k, k + 1, .plain, none⟩

/-- **Plain links give plain edges**, each from one step to the next. -/
theorem Links.piece_ofLabels (labels : List String) (number : Nat) :
    (Links.ofLabels labels).piece (number + 1) ⟨[number], none⟩ =
      .ok { steps := labels, edges := plainEdges number labels.length,
            exits := [number + labels.length] } := by
  induction labels generalizing number with
  | nil => rfl
  | cons label labels ih =>
    have hrest := ih (number + 1)
    have hexits : number + 1 + labels.length = number + (label :: labels).length := by
      rw [List.length_cons]
      omega
    have hedges : ⟨number, number + 1, .plain, none⟩ :: plainEdges (number + 1) labels.length =
        plainEdges number (label :: labels).length := by
      rw [plainEdges, plainEdges, List.length_cons, List.range'_succ, List.map_cons]
    rw [← hexits, ← hedges]
    unfold ofLabels piece
    show (do
      let rest ← (Links.ofLabels labels).piece (number + 1 + 1) ⟨[number + 1], none⟩
      return Piece.follow ⟨[number], none⟩ none (.step (number + 1) label) rest) = _
    rw [hrest]
    rfl

theorem Chain.piece_ofLabels (first : String) (labels : List String) :
    (Chain.ofLabels first labels).piece 0 =
      .ok { steps := first :: labels, edges := plainEdges 0 labels.length, entries := [0],
            exits := [labels.length] } := by
  have hrest := Links.piece_ofLabels labels 0
  rw [Nat.zero_add, Nat.zero_add] at hrest
  unfold ofLabels piece
  show (do
    let rest ← (Links.ofLabels labels).piece 1 ⟨[0], none⟩
    return (Piece.step 0 first).continued rest) = _
  rw [hrest]
  rfl

/-! ## The diagram of quoted steps -/

/-- The diagram is the chain of the steps with these labels: a node for each of them, with its number
for an id, unlabelled plain edges from each to the next, and nothing else. -/
structure IsChainOf (labels : List String) (d : Diagram) : Prop where
  nodes : d.nodes = labels.mapIdx fun k label =>
    { id := s!"n{k}", label, type := classify label, attributes := .empty }
  edges : d.edges = (List.range (labels.length - 1)).map fun k =>
    { source := s!"n{k}", target := s!"n{k + 1}", label := none, type := .plain }
  metadata : d.metadata = .empty

/-- Without branch points every step has the type of its label. -/
theorem Piece.nodes_of_branchPoints_eq_nil {piece : Piece} (h : piece.branchPoints = []) :
    piece.nodes = piece.steps.mapIdx fun k label =>
      { id := s!"n{k}", label, type := classify label, attributes := .empty } := by
  rw [nodes, List.mapIdx_eq_zipIdx_map]
  refine List.map_congr_left fun step _ => ?_
  rw [node, stepType_of_not_mem (by simp [h])]
  rfl

/-- **Every text can be a step.** A list of texts, each in quotes with its quotes, backslashes, line
feeds and tabs escaped, and with an arrow or a line feed from each to the next, is read as the chain of
these steps. -/
theorem read_quotedText (first : String) (steps : List (Joint × String)) :
    ∃ d, read {} (String.ofList (quotedText first steps)) = .ok d ∧
      IsChainOf (first :: steps.map Prod.snd) d := by
  obtain ⟨ts, hts, hvalues⟩ := exists_tokens (scans_quotedText first steps)
  have hderives : DerivesFlow (some (.ofLabels first (steps.map Prod.snd))) (significant ts) := by
    obtain ⟨⟨quoted, span⟩, us, hsignificant, rfl, hus⟩ := List.map_eq_cons_iff.1 hvalues
    have hitem : (Item.step (String.ofList first.toList)).Derives
        (⟨.quoted first.toList, span⟩ :: us) us := .quoted
    have hchain := Chain.Derives.start .none hitem (Links.derives_ofLabels hus)
    rw [String.ofList_toList] at hchain
    rw [hsignificant]
    exact .chain (.lane (List.forall_mem_nil _) hchain)
  obtain ⟨d, hd, hnodes, hedges, hmetadata⟩ :=
    exists_assemble_some {} (Chain.piece_ofLabels first (steps.map Prod.snd))
  refine ⟨d, read_eq_ok ⟨ts, ?_, parse_eq_ok_iff.2 hderives⟩ hd, ?_, ?_, hmetadata⟩
  · rw [String.toList_ofList, hts]
  · rw [hnodes]
    exact Piece.nodes_of_branchPoints_eq_nil rfl
  · rw [hedges, plainEdges, List.map_map, List.length_cons, Nat.add_sub_cancel,
      List.range_eq_range']
    rfl

/-- Marks in quotes mean nothing. -/
example : String.ofList (quotedText "Say \"hi\"" [(⟨1, .arrow, 1⟩, "a -> b"), (⟨0, .newline, 0⟩, "// (")]) =
    "\"Say \\\"hi\\\"\" -> \"a -> b\"\n\"// (\"" := by decide

end Flowchart.Flow
