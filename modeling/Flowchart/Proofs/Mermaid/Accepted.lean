import Flowchart.Mermaid.Reading
import Flowchart.Proofs.Source.Steps

/-!
# What the Mermaid reader accepts

Every statement takes steps on the draft. The nodes it declares have no attributes; only style
statements give them some. So **an accepted source gives a valid diagram**, and without style
statements its nodes have no attributes.
-/

namespace Flowchart.Mermaid

open Text (isBlank isWordChar)

/-- The statement gives a node its style: it starts with the word `style` and goes on as a style
does. -/
def IsStyle (s : Statement) : Prop :=
  s.text.takeWhile isWordChar = "style".toList ∧
    (s.text.dropWhile isWordChar).head?.all isBlank = true ∧ ∃ found, s.read style = .ok found

/-- Some statement of the source gives a node its style. -/
def HasStyles (source : List Char) : Prop :=
  ∃ title? body visible statements, frontMatter source = .ok (title?, body) ∧
    conventions.hideComments body.offset body.text = .ok visible ∧
    conventions.statements body.offset visible = .ok statements ∧ ∃ s ∈ statements, IsStyle s

/-- Steps of the reader: it declares nodes without attributes. -/
abbrev Steps (styles : Prop) : Draft → Draft → Prop :=
  Draft.Steps (fun n => n.attributes = .empty) styles

section

variable {styles : Prop}

theorem steps_declareShaped (d : Draft) (e : Endpoint) : Steps styles d (declareShaped d e) := by
  unfold declareShaped
  split
  · exact .single (.declare d _ _ rfl)
  · exact .refl

/-- A chain declares its shaped nodes and adds its edges. -/
theorem steps_connectAll (d : Draft) (previous : Endpoint) (rest : List (Link × Endpoint)) :
    Steps styles d (connectAll d previous rest) := by
  induction rest generalizing d previous with
  | nil => exact .refl
  | cons next rest ih =>
    obtain ⟨link, target⟩ := next
    exact (steps_declareShaped d target).trans (.head (.connect _ _ _ _) (ih _ target))

theorem steps_addChain (d : Draft) (chain : Chain) : Steps styles d (addChain d chain) := by
  unfold addChain
  dsimp only
  split
  · exact .single (.declare d _ _ rfl)
  · exact (steps_declareShaped d chain.first).trans (steps_connectAll _ _ _)

end

/-- **What a statement does**: a style records attributes, and any other statement adds a chain or
reports a problem. -/
theorem readStatement_cases (d : Draft) (s : Statement) :
    (IsStyle s ∧ ∃ id attributes, s.read style = .ok (id, attributes) ∧
        readStatement d s = d.style id attributes) ∨
      (¬ IsStyle s ∧ ((∃ chain, readStatement d s = addChain d chain) ∨
        ∃ problem, readStatement d s = d.report problem)) := by
  -- whatever becomes of the complaint about a style, a chain is added or a problem is reported
  have hchain : ∀ (d' : Draft) (complaint : Diagnostic → Diagnostic),
      (∀ found, s.read chain = .ok found → d' = addChain d found) →
      (∀ problem, s.read chain = .error problem → d' = d.report (complaint problem)) →
      (∃ chain, d' = addChain d chain) ∨ ∃ problem, d' = d.report problem := by
    intro d' complaint hok herror
    cases hread : s.read chain with
    | ok found => exact Or.inl ⟨found, hok found hread⟩
    | error problem => exact Or.inr ⟨_, herror problem hread⟩
  unfold readStatement
  dsimp only
  split
  -- the word `style` is supported
  · next hunsupported =>
    refine Or.inr ⟨?_, Or.inr ⟨_, rfl⟩⟩
    rintro ⟨hword, -⟩
    rw [hword, Bool.and_eq_true] at hunsupported
    exact absurd hunsupported.2 (by decide)
  · split
    · next hstyle =>
      rw [Bool.and_eq_true, decide_eq_true_eq] at hstyle
      obtain ⟨halone, hword⟩ := hstyle
      cases hread : s.read style with
      | ok found =>
        exact Or.inl ⟨⟨hword, halone, found, hread⟩, found.1, found.2, rfl, rfl⟩
      | error problem =>
        refine Or.inr ⟨?_, hchain _ (fun _ => problem) (fun _ h => by rw [h])
          fun _ h => by rw [h]; rfl⟩
        rintro ⟨-, -, found, hfound⟩
        rw [hread] at hfound
        exact absurd hfound (by simp)
    · next hstyle =>
      refine Or.inr ⟨?_, hchain _ id (fun _ h => by rw [h]) fun _ h => by rw [h]; rfl⟩
      rintro ⟨hword, halone, -⟩
      exact hstyle (by rw [halone, Bool.true_and, decide_eq_true_eq]; exact hword)

/-- **Every statement takes steps on the draft**, and only styles record attributes. -/
theorem steps_readStatement (d : Draft) (s : Statement) :
    Steps (IsStyle s) d (readStatement d s) := by
  rcases readStatement_cases d s with ⟨hstyle, id, attributes, -, h⟩ | ⟨-, ⟨chain, h⟩ | ⟨problem, h⟩⟩
  · rw [h]
    exact .single (.style d id attributes hstyle)
  · rw [h]
    exact steps_addChain d chain
  · rw [h]
    exact .single (.report d problem)

/-- The header sets the direction, if it has one. -/
theorem steps_readHeader {styles : Prop} {s : Statement} {d : Draft} (h : readHeader s = .ok d)
    (title? : Option String) : Steps styles {} { d with title := title? } := by
  have htitle : ∀ d : Draft, d.title = none → Steps styles d { d with title := title? } := by
    intro d hnone
    cases title? with
    | none =>
      have hsame : { d with title := none } = d := by rw [← hnone]
      rw [hsame]
    | some title => exact .single (.title d title)
  unfold readHeader at h
  split at h
  · exact absurd h (by simp)
  · obtain rfl := Except.ok.inj h
    exact htitle _ rfl
  · split at h
    · next direction _ =>
      obtain rfl := Except.ok.inj h
      exact .head (.direction {} direction) (htitle _ rfl)
    · exact absurd h (by simp)

theorem steps_draft {source : List Char} {d : Draft} (h : draft source = .ok d) :
    Steps (HasStyles source) {} d := by
  unfold draft at h
  obtain ⟨⟨title?, body⟩, hfront, h⟩ := bind_eq_ok_iff.1 h
  obtain ⟨visible, hvisible, h⟩ := bind_eq_ok_iff.1 h
  obtain ⟨found, hfound, h⟩ := bind_eq_ok_iff.1 h
  unfold readStatements at h
  split at h
  · exact absurd h (by simp)
  · next first rest =>
    split at h
    · exact absurd h (by simp)
    · next start hheader =>
      obtain rfl := Except.ok.inj h
      refine (steps_readHeader hheader title?).trans (Draft.steps_foldl (fun d => d) ?_ _)
      intro s hs d
      refine (steps_readStatement d s).mono fun hstyle => ?_
      exact ⟨title?, body, visible, first :: rest, hfront, hvisible, hfound, s,
        List.mem_cons_of_mem first hs, hstyle⟩

/-- **An accepted Mermaid source gives a valid diagram** whose nodes have ids, and no attributes if
the source has no style statements. -/
theorem read_accepted {source : String} {e : Diagram} (h : read source = .ok e) :
    e.validate = .ok () ∧ (∀ n ∈ e.nodes, n.id ≠ "") ∧
      (¬ HasStyles source.toList → ∀ n ∈ e.nodes, n.attributes = .empty) := by
  unfold read at h
  split at h
  · next d hd =>
    have hsteps := steps_draft hd
    obtain ⟨hvalid, hids, hholds⟩ := ((Draft.orderly_empty _).steps hsteps).resolve h
    refine ⟨hvalid, hids, fun hno => hholds ?_⟩
    exact (hsteps.mono hno).styles_eq
  · exact absurd h (by simp)

end Flowchart.Mermaid
