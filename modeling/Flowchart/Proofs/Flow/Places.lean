import Flowchart.Proofs.Flow.Accepted
import Flowchart.Proofs.Flow.Tokens

/-!
# Where the reader of flow text points

Every fault of flow text points at tokens, at labels that were read from tokens, or behind the last
one. `TokenReader.Keeps` says of a reader that it hands on places of the source when it is given
tokens that stand in it; the four readers that call each other keep them together, by induction on
the fuel. In the second half a chain becomes a diagram. Its steps are numbered, so no id is taken
twice, and **the only fault is a label on the first step, which points into the source**.
-/

namespace Flowchart.Flow

variable {source : List Char}

/-! ## Faults -/

/-- The place in the source that the fault is about; without one it is about the end. -/
def FlowFault.span? : FlowFault → Option Span
  | unexpectedToken token _ => some token.span
  | unexpectedCloser token => some token.span
  | strayPipe span => some span
  | unclosed opener _ => some opener
  | emptyLabel span => some span
  | danglingLabel span => some span
  | emptyGroup _ span => some span
  | leadingBranch span => some span
  | unexpectedEnd _ => none
  | refusedNode _ => none

/-- The diagnostic for the fault is placed, wherever the tokens end. -/
def FlowFault.IsPlaced (source : List Char) (fault : FlowFault) : Prop :=
  ∀ sourceEnd, IsBoundary source sourceEnd → (fault.diagnostic sourceEnd).IsPlaced source

namespace FlowFault

/-- An unexpected end is placed at the end of the source, which is a boundary. -/
theorem isPlaced_unexpectedEnd (expected : String) : (unexpectedEnd expected).IsPlaced source :=
  fun _ hend => Diagnostic.isPlaced_of_label ⟨hend, hend⟩ rfl rfl rfl rfl

/-- **A fault is labelled where it is.** -/
theorem isPlaced_of_span? {fault : FlowFault} {span : Span} (hfault : fault.span? = some span)
    (hspan : span.IsWithin source) : fault.IsPlaced source := by
  intro sourceEnd _
  cases fault with
  | unexpectedEnd | refusedNode => exact absurd hfault (by simp [span?])
  | unexpectedToken | unexpectedCloser | strayPipe | unclosed | emptyLabel | danglingLabel
  | emptyGroup | leadingBranch =>
    obtain rfl := Option.some.inj hfault
    exact Diagnostic.isPlaced_of_label hspan rfl rfl rfl rfl

end FlowFault

/-! ## Labels in the tree -/

mutual

/-- The labels of branches inside an item stand in the source. -/
def Item.IsPlaced (source : List Char) : Item → Prop
  | .step _ => True
  | .parallel lanes => lanes.IsPlaced source
  | .loop _ body => body.IsPlaced source

/-- The labels of branches in a chain stand in the source. -/
def Chain.IsPlaced (source : List Char) : Chain → Prop
  | .start label item rest =>
    (∀ l ∈ label, l.span.IsWithin source) ∧ item.IsPlaced source ∧ rest.IsPlaced source

/-- The labels of branches in further items stand in the source. -/
def Links.IsPlaced (source : List Char) : Links → Prop
  | .nil => True
  | .next _ _ item rest => item.IsPlaced source ∧ rest.IsPlaced source

/-- The labels of branches in lanes stand in the source. -/
def Lanes.IsPlaced (source : List Char) : Lanes → Prop
  | .last lane => lane.IsPlaced source
  | .cons lane rest => lane.IsPlaced source ∧ rest.IsPlaced source

end

/-! ## Readers of tokens -/

/-- All tokens stand in the source. -/
abbrev ArePlaced (source : List Char) (ts : List (Spanned Token)) : Prop :=
  ∀ t ∈ ts, t.span.IsWithin source

namespace TokenReader

variable {α β : Type} {r : TokenReader α} {f : α → TokenReader β} {P : α → Prop} {Q : β → Prop}

/-- Given tokens that stand in the source, the reader leaves such tokens and returns a value with the
property, or its fault is placed. -/
def Keeps (source : List Char) (r : TokenReader α) (P : α → Prop) : Prop :=
  ∀ ts, ArePlaced source ts →
    Yields (r ts) (fun found => P found.1 ∧ ArePlaced source found.2) (FlowFault.IsPlaced source)

/-- What is ready at hand takes no token. -/
theorem Keeps.pure {a : α} (ha : P a) : Keeps source (Pure.pure a) P :=
  fun _ hts => .of_ok ⟨ha, hts⟩

/-- **Readers in sequence** keep to the source if each of them does. -/
theorem Keeps.bind (hr : Keeps source r P) (hf : ∀ a, P a → Keeps source (f a) Q) :
    Keeps source (r >>= f) Q :=
  fun ts hts => (hr ts hts).bind fun found ⟨ha, hrest⟩ => hf found.1 ha found.2 hrest

/-- A placed fault may be reported at any token. -/
theorem keeps_fail {fault : FlowFault} (h : fault.IsPlaced source) :
    Keeps source (fail (α := α) fault) P :=
  fun _ _ => .of_error h

/-- The next token is one of those that are placed. -/
theorem keeps_peek? : Keeps source peek? fun found => ∀ t ∈ found, t.span.IsWithin source :=
  fun _ hts => .of_ok ⟨fun t ht => hts t (List.mem_of_head? ht), hts⟩

/-- Behind a token there are only placed ones. -/
theorem keeps_skip : Keeps source skip fun _ => True :=
  fun _ hts => .of_ok ⟨trivial, fun t ht => hts t (List.mem_of_mem_tail ht)⟩

/-- A token that is looked at and then read. -/
theorem Keeps.skip {g : Unit → TokenReader β} (h : Keeps source (g ()) Q) :
    Keeps source (TokenReader.skip >>= g) Q :=
  keeps_skip.bind fun _ _ => h

/-- A run of separators is followed by the end of the tokens. -/
theorem suffix_separatorRun (ts : List (Spanned Token)) : (separatorRun ts).2 <:+ ts := by
  induction ts with
  | nil => exact List.suffix_rfl
  | cons t ts ih =>
    unfold separatorRun
    split
    · exact ih.trans (List.suffix_cons t ts)
    · exact List.suffix_rfl

/-- Separators carry nothing that would have to be placed. -/
theorem keeps_separators : Keeps source separators fun _ => True :=
  fun ts hts => .of_ok ⟨trivial, fun t ht => hts t ((suffix_separatorRun ts).subset ht)⟩

/-! ### Faults of a place -/

section

variable {found : Option (Spanned Token)} (hfound : ∀ t ∈ found, t.span.IsWithin source)

include hfound

/-- A fault about the next token points to it, or to the end if there is none. -/
theorem isPlaced_unexpected (expected : String) : (unexpected found expected).IsPlaced source := by
  unfold unexpected
  split
  · exact FlowFault.isPlaced_of_span? rfl (hfound _ rfl)
  · exact FlowFault.isPlaced_unexpectedEnd expected

/-- A bracket that is not closed is pointed to where it was opened. -/
theorem isPlaced_unclosedOr {opener : Span} (hopener : opener.IsWithin source)
    (closer expected : String) : (unclosedOr found opener closer expected).IsPlaced source := by
  unfold unclosedOr
  split
  · exact FlowFault.isPlaced_of_span? rfl hopener
  · split
    · exact FlowFault.isPlaced_of_span? rfl (hfound _ rfl)
    · exact FlowFault.isPlaced_of_span? rfl (hfound _ rfl)

/-- So is the bracket of a label. -/
theorem isPlaced_unclosedLabelOr {opener : Span} (hopener : opener.IsWithin source)
    (expected : String) : (unclosedLabelOr found opener expected).IsPlaced source := by
  unfold unclosedLabelOr
  split
  · exact FlowFault.isPlaced_of_span? rfl hopener
  · exact isPlaced_unclosedOr hfound hopener _ expected

end

/-! ### Labels and groups -/

/-- The label of a branch spans from its opening bracket to the closing one. -/
theorem keeps_label {opener : Span} (hopener : opener.IsWithin source) :
    Keeps source (label opener) fun l => l.span.IsWithin source := by
  unfold label
  refine .skip (keeps_peek?.bind fun found hfound => ?_)
  split
  case h_3 =>
    refine keeps_fail (FlowFault.isPlaced_of_span? rfl (hopener.union ?_))
    cases found with
    | none => exact hopener
    | some t => exact hfound t rfl
  case h_4 => exact keeps_fail (isPlaced_unclosedLabelOr hfound hopener _)
  -- a word and a string are closed alike
  all_goals
    refine .skip (keeps_peek?.bind fun next hnext => ?_)
    split
    · exact .skip (.pure (hopener.union (hnext _ rfl)))
    · exact keeps_fail (isPlaced_unclosedLabelOr hnext hopener _)

/-- A label that may be missing is placed if it is there. -/
theorem keeps_label? : Keeps source label? fun o => ∀ l ∈ o, l.span.IsWithin source := by
  unfold label?
  refine keeps_peek?.bind fun found hfound => ?_
  split
  · refine (keeps_label (hfound _ rfl)).bind fun l hl => .pure fun m hm => ?_
    obtain rfl : l = m := by simpa using hm
    exact hl
  · exact .pure (by simp)

/-- The label of a branch, which an item must follow, is placed too. -/
theorem keeps_branchLabel? : Keeps source branchLabel? fun o => ∀ l ∈ o, l.span.IsWithin source := by
  unfold branchLabel?
  refine keeps_label?.bind fun o ho => ?_
  split
  · exact .pure (by simp)
  · refine keeps_peek?.bind fun found _ => ?_
    split
    · exact keeps_fail (FlowFault.isPlaced_of_span? rfl (ho _ rfl))
    · exact .pure ho

/-- A group is opened at a token. -/
theorem keeps_openGroup : Keeps source openGroup fun span => span.IsWithin source := by
  unfold openGroup
  refine keeps_peek?.bind fun found hfound => ?_
  split
  · exact .skip (.pure (hfound _ rfl))
  · exact keeps_fail (isPlaced_unexpected hfound _)

/-- In front of a lane there are separators; a lane without a step is a fault of its group. -/
theorem keeps_startLane {keyword opener : Span} (hkeyword : keyword.IsWithin source)
    (hopener : opener.IsWithin source) (what : String) :
    Keeps source (startLane keyword opener what) fun _ => True := by
  unfold startLane
  refine keeps_separators.bind fun _ _ => keeps_peek?.bind fun found hfound => ?_
  split
  · split
    · exact keeps_fail (FlowFault.isPlaced_of_span? rfl (hkeyword.union (hfound _ rfl)))
    · exact keeps_fail (FlowFault.isPlaced_of_span? rfl (hkeyword.union (hfound _ rfl)))
    · exact keeps_fail (isPlaced_unclosedOr hfound hopener _ _)
  · exact .pure trivial

/-! ### Items, chains, links and lanes -/

/-- The four readers that call each other keep places, with this much fuel. -/
structure AllKeep (source : List Char) (fuel : Nat) : Prop where
  item : Keeps source (item fuel) (Item.IsPlaced source)
  chain : Keeps source (chain fuel) (Chain.IsPlaced source)
  links : Keeps source (links fuel) (Links.IsPlaced source)
  lanes : ∀ keyword opener : Span, keyword.IsWithin source → opener.IsWithin source →
    Keeps source (lanes fuel keyword opener) (Lanes.IsPlaced source)

variable {fuel : Nat}

/-- An item with a reader of its parts: **what the item holds is placed, and so is every fault**. -/
theorem keeps_item (h : AllKeep source fuel) :
    Keeps source (TokenReader.item (fuel + 1)) (Item.IsPlaced source) := by
  unfold TokenReader.item
  refine keeps_peek?.bind fun found hfound => ?_
  split
  · next content keyword =>
    have hkeyword : keyword.IsWithin source := hfound _ rfl
    refine .skip (keeps_peek?.bind fun next hnext => ?_)
    split
    · refine keeps_openGroup.bind fun opener hopener => ?_
      exact (h.lanes keyword opener hkeyword hopener).bind fun lanes hlanes => .pure hlanes
    · refine keeps_label?.bind fun label _ => keeps_openGroup.bind fun opener hopener => ?_
      refine (keeps_startLane hkeyword hopener _).bind fun _ _ => ?_
      refine h.chain.bind fun body hbody => keeps_separators.bind fun _ _ => ?_
      refine keeps_peek?.bind fun last hlast => ?_
      split
      · exact .skip (.pure hbody)
      · exact keeps_fail (isPlaced_unclosedOr hlast hopener _ _)
    · exact .pure trivial
  · exact .skip (.pure trivial)
  · refine keeps_fail ?_
    split
    · exact FlowFault.isPlaced_of_span? rfl (hfound _ rfl)
    · exact FlowFault.isPlaced_of_span? rfl (hfound _ rfl)
  · exact keeps_fail (FlowFault.isPlaced_unexpectedEnd _)

/-- A chain is an item and the links behind it. -/
theorem keeps_chain (h : AllKeep source fuel) :
    Keeps source (TokenReader.chain (fuel + 1)) (Chain.IsPlaced source) := by
  unfold TokenReader.chain
  refine keeps_branchLabel?.bind fun label hlabel => h.item.bind fun item hitem => ?_
  exact h.links.bind fun rest hrest => .pure ⟨hlabel, hitem, hrest⟩

/-- Links are placed one after the other. -/
theorem keeps_links (h : AllKeep source fuel) :
    Keeps source (TokenReader.links (fuel + 1)) (Links.IsPlaced source) := by
  unfold TokenReader.links
  refine keeps_separators.bind fun found _ => ?_
  split
  · exact .pure trivial
  · refine keeps_peek?.bind fun next _ => ?_
    split
    · exact .pure trivial
    · refine keeps_branchLabel?.bind fun label _ => h.item.bind fun item hitem => ?_
      exact h.links.bind fun rest hrest => .pure ⟨hitem, hrest⟩

/-- Lanes are placed one after the other, up to the token that closes them. -/
theorem keeps_lanes (h : AllKeep source fuel) {keyword opener : Span}
    (hkeyword : keyword.IsWithin source) (hopener : opener.IsWithin source) :
    Keeps source (TokenReader.lanes (fuel + 1) keyword opener) (Lanes.IsPlaced source) := by
  unfold TokenReader.lanes
  refine (keeps_startLane hkeyword hopener _).bind fun _ _ => h.chain.bind fun lane hlane => ?_
  refine keeps_peek?.bind fun found hfound => ?_
  split
  · refine .skip ((h.lanes keyword opener hkeyword hopener).bind fun rest hrest => ?_)
    exact .pure ⟨hlane, hrest⟩
  · exact .skip (.pure hlane)
  · exact keeps_fail (isPlaced_unclosedOr hfound hopener _ _)

/-- **The readers keep places, however much fuel there is.** -/
theorem allKeep (source : List Char) (fuel : Nat) : AllKeep source fuel := by
  induction fuel with
  | zero =>
    have hend : FlowFault.IsPlaced source (.unexpectedEnd "a step") :=
      FlowFault.isPlaced_unexpectedEnd _
    refine ⟨?_, ?_, ?_, fun keyword opener _ _ => ?_⟩
    · unfold TokenReader.item
      exact keeps_fail hend
    · unfold TokenReader.chain
      exact keeps_fail hend
    · unfold TokenReader.links
      exact keeps_fail hend
    · unfold TokenReader.lanes
      exact keeps_fail hend
  | succ fuel ih =>
    exact ⟨keeps_item ih, keeps_chain ih, keeps_links ih, fun _ _ => keeps_lanes ih⟩

/-- A whole flow is placed, whatever fuel its reader has. -/
theorem keeps_flow (fuel : Nat) :
    Keeps source (flow fuel) fun o => ∀ chain ∈ o, chain.IsPlaced source := by
  unfold flow
  refine keeps_separators.bind fun _ _ => keeps_peek?.bind fun found _ => ?_
  split
  · exact .pure (by simp)
  · refine (allKeep source fuel).chain.bind fun chain hchain => ?_
    refine keeps_peek?.bind fun last hlast => ?_
    split
    · refine .pure fun other hother => ?_
      obtain rfl : chain = other := by simpa using hother
      exact hchain
    · split
      · exact keeps_fail (FlowFault.isPlaced_of_span? rfl (hlast _ rfl))
      · split
        · exact keeps_fail (FlowFault.isPlaced_of_span? rfl (hlast _ rfl))
        · exact keeps_fail (isPlaced_unexpected hlast _)

end TokenReader

/-- **Parsing placed tokens gives a placed flow or a placed fault.** -/
theorem yields_parse {ts : List (Spanned Token)} (hts : ArePlaced source ts) :
    Yields (parse ts) (fun o => ∀ chain ∈ o, chain.IsPlaced source) (FlowFault.IsPlaced source) := by
  unfold parse
  dsimp only
  generalize hkept : ts.filter (fun token => !token.value.isTrivia) = kept
  have hplaced : ArePlaced source kept := by
    rw [← hkept]
    exact fun t ht => hts t (List.mem_filter.1 ht).1
  have hflow := TokenReader.keeps_flow (3 * kept.length + 3) kept hplaced
  split
  · next chain rest hread => exact .of_ok (hflow.ok _ hread).1
  · next fault hread => exact .of_error (hflow.error fault hread)

/-! ## Pieces -/

mutual

/-- An item gives its piece, or a fault at the place of its label. -/
theorem Item.yields_piece (number : Nat) (item : Item) (h : item.IsPlaced source) :
    Yields (item.piece number) (fun _ => True) (FlowFault.IsPlaced source) := by
  cases item with
  | step label =>
    unfold Item.piece
    exact .of_ok trivial
  | parallel lanes =>
    unfold Item.piece
    exact Lanes.yields_piece number lanes h
  | loop label body =>
    unfold Item.piece
    exact (Chain.yields_piece number body h).bind fun _ _ => .of_ok trivial

/-- **The only fault of a chain is a label on its first item.** -/
theorem Chain.yields_piece (number : Nat) (chain : Chain) (h : chain.IsPlaced source) :
    Yields (chain.piece number) (fun _ => True) (FlowFault.IsPlaced source) := by
  cases chain with
  | start label item rest =>
    obtain ⟨hlabel, hitem, hrest⟩ := h
    cases label with
    | some label =>
      unfold Chain.piece
      exact .of_error (FlowFault.isPlaced_of_span? rfl (hlabel label rfl))
    | none =>
      unfold Chain.piece
      refine (Item.yields_piece number item hitem).bind fun first _ => ?_
      exact (Links.yields_piece _ _ rest hrest).bind fun _ _ => .of_ok trivial

/-- Links give a piece behind the front that they go on from, or a placed fault. -/
theorem Links.yields_piece (number : Nat) (front : Front) (links : Links)
    (h : links.IsPlaced source) :
    Yields (links.piece number front) (fun _ => True) (FlowFault.IsPlaced source) := by
  cases links with
  | nil =>
    unfold Links.piece
    exact .of_ok trivial
  | next merges label item rest =>
    obtain ⟨hitem, hrest⟩ := h
    unfold Links.piece
    refine (Item.yields_piece number item hitem).bind fun first _ => ?_
    exact (Links.yields_piece _ _ rest hrest).bind fun _ _ => .of_ok trivial

/-- Lanes give a piece, or a placed fault of one of them. -/
theorem Lanes.yields_piece (number : Nat) (lanes : Lanes) (h : lanes.IsPlaced source) :
    Yields (lanes.piece number) (fun _ => True) (FlowFault.IsPlaced source) := by
  cases lanes with
  | last lane =>
    unfold Lanes.piece
    exact Chain.yields_piece number lane h
  | cons lane rest =>
    obtain ⟨hlane, hrest⟩ := h
    unfold Lanes.piece
    refine (Chain.yields_piece number lane hlane).bind fun first _ => ?_
    exact (Lanes.yields_piece _ rest hrest).bind fun _ _ => .of_ok trivial

end

/-! ## Diagrams -/

/-- Nodes with new ids can all be added. -/
theorem exists_foldlM_addNode {nodes : List Node} {d : Diagram} (hne : ∀ n ∈ nodes, n.id ≠ "")
    (hnodup : (d.ids ++ nodes.map Node.id).Nodup) :
    ∃ e, nodes.foldlM Diagram.addNode d = .ok e := by
  induction nodes generalizing d with
  | nil => exact ⟨d, rfl⟩
  | cons n rest ih =>
    obtain ⟨hn, hrest⟩ := List.forall_mem_cons.1 hne
    have hnew : n.id ∉ d.ids := by
      intro hmem
      rw [List.map_cons, List.nodup_append] at hnodup
      exact hnodup.2.2 _ hmem _ List.mem_cons_self rfl
    rcases d.addNode_cases n with ⟨hempty, -⟩ | ⟨-, htaken, -⟩ | ⟨-, -, e, hadd, hnodes, -, -⟩
    · exact absurd hempty hn
    · exact absurd htaken hnew
    rw [List.foldlM_cons, hadd]
    refine ih hrest ?_
    rw [Diagram.ids, hnodes, List.map_append, List.append_assoc]
    exact hnodup

/-- Numbered steps have different ids. -/
theorem stepId_injective : Function.Injective Piece.stepId := by
  intro a b h
  simpa [Piece.stepId] using h

/-- **The numbered steps of a flow are never refused as nodes.** -/
theorem exists_diagram (options : Options) {nodes : List Node} {count : Nat}
    (hids : nodes.map Node.id = (List.range count).map Piece.stepId) (edges : List Edge) :
    ∃ d, options.diagram nodes edges = .ok d := by
  have hne : ∀ n ∈ nodes, n.id ≠ "" := by
    intro n hn hnil
    have hmem : n.id ∈ (List.range count).map Piece.stepId := by
      rw [← hids]
      exact List.mem_map_of_mem hn
    obtain ⟨k, -, hk⟩ := List.mem_map.1 hmem
    rw [hnil] at hk
    have hlength := congrArg String.length hk
    simp [Piece.stepId] at hlength
  have hfold : ∀ start : Diagram, start.ids = [] → ∃ e, nodes.foldlM Diagram.addNode start = .ok e := by
    intro start hstart
    refine exists_foldlM_addNode hne ?_
    rw [hstart, List.nil_append, hids]
    exact List.nodup_range.map stepId_injective
  unfold Options.diagram
  dsimp only
  -- The title, where there is one, adds no node.
  cases options.title with
  | none =>
    obtain ⟨e, he⟩ := hfold Diagram.empty rfl
    exact ⟨e.addEdges edges, by rw [he]⟩
  | some title =>
    obtain ⟨e, he⟩ := hfold (Diagram.empty.setMetadata Diagram.titleKey title) rfl
    exact ⟨e.addEdges edges, by rw [he]⟩

/-- The nodes that are drawn for the piece of a chain. -/
def Options.drawnNodes (options : Options) (chain : Chain) (piece : Piece) : List Node :=
  if options.positionalTerminals && chain.isLinear then withTerminals piece.nodes else piece.nodes

/-- The nodes that are drawn have the ids of the steps, in their order. -/
theorem Options.map_id_drawnNodes (options : Options) (chain : Chain) (piece : Piece) :
    (options.drawnNodes chain piece).map Node.id =
      (List.range piece.steps.length).map Piece.stepId := by
  unfold drawnNodes
  split
  · rw [map_id_withTerminals, Piece.map_id_nodes]
  · exact Piece.map_id_nodes piece

/-- No flow at all is assembled into a diagram that has nothing but the metadata. -/
theorem exists_assemble_none (options : Options) :
    ∃ d, assemble options none = .ok d ∧ d.nodes = [] ∧ d.edges = [] ∧
      d.metadata = options.metadata := by
  have hids : ([] : List Node).map Node.id = (List.range 0).map Piece.stepId := rfl
  obtain ⟨d, hd⟩ := exists_diagram options hids []
  refine ⟨d, ?_, (Options.diagram_eq_ok hd).2⟩
  unfold assemble
  dsimp only
  rw [hd]
  rfl

/-- **What a chain comes to is drawn**, with the nodes, the edges and the title that it has. -/
theorem exists_assemble_some (options : Options) {chain : Chain} {piece : Piece}
    (h : chain.piece 0 = .ok piece) :
    ∃ d, assemble options (some chain) = .ok d ∧ d.nodes = options.drawnNodes chain piece ∧
      d.edges = piece.edges.map Piece.edge ∧ d.metadata = options.metadata := by
  obtain ⟨d, hd⟩ := exists_diagram options (options.map_id_drawnNodes chain piece)
    (piece.edges.map Piece.edge)
  refine ⟨d, ?_, (Options.diagram_eq_ok hd).2⟩
  unfold Options.drawnNodes at hd
  unfold assemble
  dsimp only
  rw [h]
  dsimp only [bind, Except.bind]
  rw [hd]
  rfl

/-- **Assembling fails exactly if the pieces of the flow cannot be made.** -/
theorem assemble_eq_error_iff {options : Options} {chain : Chain} {fault : FlowFault} :
    assemble options (some chain) = .error fault ↔ chain.piece 0 = .error fault := by
  cases hpiece : chain.piece 0 with
  | error found =>
    unfold assemble
    dsimp only
    rw [hpiece]
    simp [bind, Except.bind]
  | ok piece =>
    obtain ⟨d, hd, -⟩ := exists_assemble_some options hpiece
    rw [hd]
    simp

/-- Assembling a placed flow gives a diagram or a placed fault. -/
theorem yields_assemble (options : Options) {flow : Option Chain}
    (h : ∀ chain ∈ flow, chain.IsPlaced source) :
    Yields (assemble options flow) (fun _ => True) (FlowFault.IsPlaced source) := by
  cases flow with
  | none =>
    obtain ⟨d, hd, -⟩ := exists_assemble_none options
    rw [hd]
    exact .of_ok trivial
  | some chain =>
    refine ⟨fun _ _ => trivial, fun fault hfault => ?_⟩
    exact (Chain.yields_piece 0 chain (h chain rfl)).error fault (assemble_eq_error_iff.1 hfault)

/-! ## Sources -/

/-- The end of placed tokens is a boundary of the source. -/
theorem isBoundary_tokensEnd {ts : List (Spanned Token)} (hts : ArePlaced source ts) :
    IsBoundary source (tokensEnd ts) := by
  unfold tokensEnd
  cases hlast : ts.getLast? with
  | none => exact .zero source
  | some t => exact (hts t (List.mem_of_getLast? hlast)).stop

/-- **What is said about flow text that is refused points into it.** -/
theorem pointsInto_of_read {options : Options} {source : String} {e : ParseError}
    (h : read options source = .error e) : ∀ problem ∈ e.diagnostics, problem.PointsInto source := by
  have htokens := yields_tokens source
  unfold read at h
  split at h
  · next found hfound =>
    obtain rfl := Except.error.inj h
    exact htokens.error found hfound
  · next ts hts =>
    have hplaced := htokens.ok ts hts
    have hdiagram : Yields (ofTokens options ts) (fun _ => True) (FlowFault.IsPlaced source.toList) :=
      (yields_parse hplaced).bind fun _ hflow => yields_assemble options hflow
    split at h
    · exact absurd h (by simp)
    · next fault hfault =>
      obtain rfl := Except.error.inj h
      exact ParseError.pointsInto_single
        (hdiagram.error fault hfault _ (isBoundary_tokensEnd hplaced))

end Flowchart.Flow
