import Flowchart.Proofs.Flow.Grammar
import Flowchart.Proofs.Source.Steps

/-!
# Flow text is read by its grammar

The reader of flow text looks one token ahead and never goes back. **It accepts what the grammar
derives and nothing else, with the tree of the derivation.** What is read is derived, by induction on
the fuel; what is derived is read, by recursion on the tree, with three calls for each token. So a list
of tokens has one tree at most.
-/

namespace Flowchart.Flow

/-! ## One reader after another -/

/-- The first of some tokens. -/
theorem eq_cons_of_head? {ts : List (Spanned Token)} {t : Spanned Token} (h : ts.head? = some t) :
    ts = t :: ts.tail := by
  cases ts with
  | nil => simp at h
  | cons u ts => simpa using h

namespace TokenReader

variable {α β : Type} {r : TokenReader α} {f : α → TokenReader β} {ts us rest : List (Spanned Token)}

/-- A sequence of readers succeeds exactly if both of its parts do. -/
theorem bind_eq_ok_iff {b : β} :
    (r >>= f) ts = .ok (b, rest) ↔ ∃ a us, r ts = .ok (a, us) ∧ f a us = .ok (b, rest) := by
  show (r ts >>= fun found => f found.1 found.2) = .ok (b, rest) ↔ _
  cases r ts with
  | error fault => simp [bind, Except.bind]
  | ok found =>
    obtain ⟨a, us⟩ := found
    simp [bind, Except.bind]

/-- What is ready at hand is read without taking a token. -/
theorem pure_eq_ok_iff {a b : α} :
    (pure a : TokenReader α) ts = .ok (b, rest) ↔ a = b ∧ ts = rest := by
  show Except.ok (a, ts) = .ok (b, rest) ↔ _
  rw [Except.ok.injEq, Prod.mk.injEq]

/-- Looking at the next token takes nothing. -/
theorem peek?_bind {f : Option (Spanned Token) → TokenReader β} :
    (peek? >>= f) ts = f ts.head? ts := rfl

/-- Skipping takes one token, if there is one. -/
theorem skip_bind {f : Unit → TokenReader β} : (skip >>= f) ts = f () ts.tail := rfl

/-- Separators are taken as one run, which tells what the run was. -/
theorem separators_bind {f : Option Bool → TokenReader β} :
    (separators >>= f) ts = f (separatorRun ts).1 (separatorRun ts).2 := rfl

/-- A fault is never a success. -/
theorem fail_ne_ok {fault : FlowFault} {found : α × List (Spanned Token)} :
    fail (α := α) fault ts ≠ .ok found := by
  simp [fail]

/-- A token that is looked at. -/
theorem exists_of_peek?_bind {f : Option (Spanned Token) → TokenReader β} {b : β}
    (h : (peek? >>= f) ts = .ok (b, rest)) :
    ∃ found, ts.head? = found ∧ f found ts = .ok (b, rest) := ⟨_, rfl, h⟩

/-- Separators that are read. -/
theorem exists_of_separators_bind {f : Option Bool → TokenReader β} {b : β}
    (h : (separators >>= f) ts = .ok (b, rest)) :
    ∃ seps us, ts = seps ++ us ∧ AreSeparators seps ∧ f (runOf seps) us = .ok (b, rest) := by
  obtain ⟨seps, us, rfl, hseps, hus⟩ := exists_separators ts
  rw [separators_bind, separatorRun_append hseps hus] at h
  exact ⟨seps, us, rfl, hseps, h⟩

/-! ## What is read is derived -/

/-- What is read as a label stands between brackets. -/
theorem derivesLabel_of_label {opener : Span} {l : BranchLabel}
    (h : label opener (⟨.openBracket, opener⟩ :: ts) = .ok (l, rest)) :
    DerivesLabel (some l) (⟨.openBracket, opener⟩ :: ts) rest := by
  unfold label at h
  rw [skip_bind, List.tail_cons] at h
  obtain ⟨found, hfound, h⟩ := exists_of_peek?_bind h
  generalize hvalue : found.map Spanned.value = value at h
  split at h
  case h_3 => exact absurd h fail_ne_ok
  case h_4 => exact absurd h fail_ne_ok
  -- a text and a quoted string are read alike
  all_goals
    rename_i content
    obtain ⟨t, rfl, hcontent⟩ := Option.map_eq_some_iff.1 hvalue
    have htext : t.value = .text content ∨ t.value = .quoted content := by simp [hcontent]
    rw [skip_bind] at h
    obtain ⟨next, hnext, h⟩ := exists_of_peek?_bind h
    split at h
    · rw [skip_bind, pure_eq_ok_iff] at h
      obtain ⟨rfl, rfl⟩ := h
      rw [eq_cons_of_head? hfound, eq_cons_of_head? hnext]
      exact .some htext
    · exact absurd h fail_ne_ok

/-- A label that may be missing is derived either way. -/
theorem derivesLabel_of_label? {l : Option BranchLabel} (h : label? ts = .ok (l, rest)) :
    DerivesLabel l ts rest := by
  unfold label? at h
  obtain ⟨found, hfound, h⟩ := exists_of_peek?_bind h
  split at h
  · obtain ⟨inner, us, hinner, h⟩ := bind_eq_ok_iff.1 h
    obtain ⟨rfl, rfl⟩ := pure_eq_ok_iff.1 h
    rw [eq_cons_of_head? hfound] at hinner ⊢
    exact derivesLabel_of_label hinner
  · obtain ⟨rfl, rfl⟩ := pure_eq_ok_iff.1 h
    exact .none

/-- The label of a branch is derived, if there is one. -/
theorem derivesLabel_of_branchLabel? {l : Option BranchLabel} (h : branchLabel? ts = .ok (l, rest)) :
    DerivesLabel l ts rest := by
  unfold branchLabel? at h
  obtain ⟨found, us, hlabel, h⟩ := bind_eq_ok_iff.1 h
  have hderives := derivesLabel_of_label? hlabel
  split at h
  · obtain ⟨rfl, rfl⟩ := pure_eq_ok_iff.1 h
    exact hderives
  · obtain ⟨next, -, h⟩ := exists_of_peek?_bind h
    split at h
    · exact absurd h fail_ne_ok
    · obtain ⟨rfl, rfl⟩ := pure_eq_ok_iff.1 h
      exact hderives

/-- A group is opened by its bracket. -/
theorem eq_cons_of_openGroup {opener : Span} (h : openGroup ts = .ok (opener, rest)) :
    ts = ⟨.openParen, opener⟩ :: rest := by
  unfold openGroup at h
  obtain ⟨found, hfound, h⟩ := exists_of_peek?_bind h
  split at h
  · rw [skip_bind, pure_eq_ok_iff] at h
    obtain ⟨rfl, rfl⟩ := h
    exact eq_cons_of_head? hfound
  · exact absurd h fail_ne_ok

/-- In front of a lane only separators are taken. -/
theorem separators_of_startLane {keyword opener : Span} {what : String}
    (h : startLane keyword opener what ts = .ok ((), rest)) :
    ∃ seps, ts = seps ++ rest ∧ AreSeparators seps := by
  unfold startLane at h
  obtain ⟨seps, us, rfl, hseps, h⟩ := exists_of_separators_bind h
  obtain ⟨found, -, h⟩ := exists_of_peek?_bind h
  split at h
  · split at h
    · exact absurd h fail_ne_ok
    · exact absurd h fail_ne_ok
    · exact absurd h fail_ne_ok
  · obtain ⟨-, rfl⟩ := pure_eq_ok_iff.1 h
    exact ⟨seps, rfl, hseps⟩

/-- What the four readers that call each other read with this much fuel is derived. -/
structure AllDerive (fuel : Nat) : Prop where
  item : ∀ ts x rest, item fuel ts = .ok (x, rest) → x.Derives ts rest
  chain : ∀ ts c rest, chain fuel ts = .ok (c, rest) → c.Derives ts rest
  links : ∀ ts l rest, links fuel ts = .ok (l, rest) → l.Derives ts rest
  lanes : ∀ keyword opener ts l rest, lanes fuel keyword opener ts = .ok (l, rest) →
    l.Derives ts rest

variable {fuel : Nat}

/-- **What is read as an item is derived**, with the fuel that its parts have. -/
theorem derives_of_item (h : AllDerive fuel) {x : Item}
    (hread : TokenReader.item (fuel + 1) ts = .ok (x, rest)) : x.Derives ts rest := by
  unfold TokenReader.item at hread
  obtain ⟨found, hfound, hread⟩ := exists_of_peek?_bind hread
  split at hread
  · next content keyword =>
    rw [skip_bind] at hread
    obtain ⟨next, hnext, hread⟩ := exists_of_peek?_bind hread
    generalize hgroup : group? content next = group at hread
    rw [← hnext] at hgroup
    rw [eq_cons_of_head? hfound]
    split at hread
    · obtain ⟨opener, us, hopen, hread⟩ := bind_eq_ok_iff.1 hread
      obtain ⟨lanes, vs, hlanes, hread⟩ := bind_eq_ok_iff.1 hread
      obtain ⟨rfl, rfl⟩ := pure_eq_ok_iff.1 hread
      rw [eq_cons_of_openGroup hopen] at hgroup ⊢
      exact .parallel (group?_eq_some_iff.1 hgroup) (h.lanes _ _ _ _ _ hlanes)
    · obtain ⟨label, us, hlabel, hread⟩ := bind_eq_ok_iff.1 hread
      obtain ⟨opener, vs, hopen, hread⟩ := bind_eq_ok_iff.1 hread
      obtain ⟨⟨⟩, ws, hstart, hread⟩ := bind_eq_ok_iff.1 hread
      obtain ⟨body, xs, hbody, hread⟩ := bind_eq_ok_iff.1 hread
      obtain ⟨after, ys, rfl, hafter, hread⟩ := exists_of_separators_bind hread
      obtain ⟨last, hlast, hread⟩ := exists_of_peek?_bind hread
      split at hread
      · rw [skip_bind, pure_eq_ok_iff] at hread
        obtain ⟨rfl, rfl⟩ := hread
        obtain ⟨seps, rfl, hseps⟩ := separators_of_startLane hstart
        rw [eq_cons_of_head? hlast] at hbody
        have hderives := derivesLabel_of_label? hlabel
        rw [eq_cons_of_openGroup hopen] at hderives
        exact .loop (group?_eq_some_iff.1 hgroup) hderives
          (.lane hseps ((h.chain _ _ _ hbody).trailing hafter))
      · exact absurd hread fail_ne_ok
    · obtain ⟨rfl, rfl⟩ := pure_eq_ok_iff.1 hread
      exact .text (group?_eq_none_iff.1 hgroup)
  · rw [skip_bind, pure_eq_ok_iff] at hread
    obtain ⟨rfl, rfl⟩ := hread
    rw [eq_cons_of_head? hfound]
    exact .quoted
  · exact absurd hread fail_ne_ok
  · exact absurd hread fail_ne_ok

/-- What is read as a chain is an item and links. -/
theorem derives_of_chain (h : AllDerive fuel) {c : Chain}
    (hread : TokenReader.chain (fuel + 1) ts = .ok (c, rest)) : c.Derives ts rest := by
  unfold TokenReader.chain at hread
  obtain ⟨label, us, hlabel, hread⟩ := bind_eq_ok_iff.1 hread
  obtain ⟨item, vs, hitem, hread⟩ := bind_eq_ok_iff.1 hread
  obtain ⟨links, ws, hlinks, hread⟩ := bind_eq_ok_iff.1 hread
  obtain ⟨rfl, rfl⟩ := pure_eq_ok_iff.1 hread
  exact .start (derivesLabel_of_branchLabel? hlabel) (h.item _ _ _ hitem) (h.links _ _ _ hlinks)

/-- What is read as links is derived link by link. -/
theorem derives_of_links (h : AllDerive fuel) {l : Links}
    (hread : TokenReader.links (fuel + 1) ts = .ok (l, rest)) : l.Derives ts rest := by
  unfold TokenReader.links at hread
  obtain ⟨seps, us, rfl, hseps, hread⟩ := exists_of_separators_bind hread
  generalize hrun : runOf seps = run at hread
  split at hread
  · obtain ⟨rfl, rfl⟩ := pure_eq_ok_iff.1 hread
    exact .nil hseps
  · next merges =>
    obtain ⟨next, -, hread⟩ := exists_of_peek?_bind hread
    split at hread
    · obtain ⟨rfl, rfl⟩ := pure_eq_ok_iff.1 hread
      exact .nil hseps
    · obtain ⟨label, vs, hlabel, hread⟩ := bind_eq_ok_iff.1 hread
      obtain ⟨item, ws, hitem, hread⟩ := bind_eq_ok_iff.1 hread
      obtain ⟨links, xs, hlinks, hread⟩ := bind_eq_ok_iff.1 hread
      obtain ⟨rfl, rfl⟩ := pure_eq_ok_iff.1 hread
      obtain ⟨hne, rfl⟩ := runOf_eq_some_iff.1 hrun
      exact .next hseps hne (derivesLabel_of_branchLabel? hlabel) (h.item _ _ _ hitem)
        (h.links _ _ _ hlinks)

/-- What is read as lanes is derived lane by lane. -/
theorem derives_of_lanes (h : AllDerive fuel) {keyword opener : Span} {l : Lanes}
    (hread : TokenReader.lanes (fuel + 1) keyword opener ts = .ok (l, rest)) :
    l.Derives ts rest := by
  unfold TokenReader.lanes at hread
  obtain ⟨⟨⟩, us, hstart, hread⟩ := bind_eq_ok_iff.1 hread
  obtain ⟨seps, hts, hseps⟩ := separators_of_startLane hstart
  obtain ⟨lane, vs, hlane, hread⟩ := bind_eq_ok_iff.1 hread
  rw [hts]
  obtain ⟨found, hfound, hread⟩ := exists_of_peek?_bind hread
  have hderives := h.chain _ _ _ hlane
  split at hread
  · rw [eq_cons_of_head? hfound] at hderives
    rw [skip_bind] at hread
    obtain ⟨lanes, ws, hlanes, hread⟩ := bind_eq_ok_iff.1 hread
    obtain ⟨rfl, rfl⟩ := pure_eq_ok_iff.1 hread
    exact .cons (.lane hseps hderives) (h.lanes _ _ _ _ _ hlanes)
  · rw [eq_cons_of_head? hfound] at hderives
    rw [skip_bind, pure_eq_ok_iff] at hread
    obtain ⟨rfl, rfl⟩ := hread
    exact .last (.lane hseps hderives)
  · exact absurd hread fail_ne_ok

/-- **What is read is derived, however much fuel there is.** -/
theorem allDerive (fuel : Nat) : AllDerive fuel := by
  induction fuel with
  | zero =>
    refine ⟨fun ts x rest h => ?_, fun ts c rest h => ?_, fun ts l rest h => ?_,
      fun keyword opener ts l rest h => ?_⟩
    · unfold TokenReader.item at h
      exact absurd h fail_ne_ok
    · unfold TokenReader.chain at h
      exact absurd h fail_ne_ok
    · unfold TokenReader.links at h
      exact absurd h fail_ne_ok
    · unfold TokenReader.lanes at h
      exact absurd h fail_ne_ok
  | succ fuel ih =>
    exact ⟨fun _ _ _ => derives_of_item ih, fun _ _ _ => derives_of_chain ih,
      fun _ _ _ => derives_of_links ih, fun _ _ _ _ _ => derives_of_lanes ih⟩

/-! ## What is derived is read -/

variable {vs : List (Spanned Token)}

/-- A chain goes on where another item or a label begins. -/
theorem endsChain_eq_false {t : Spanned Token}
    (ht : t.value.startsItem = true ∨ t.value = .openBracket) : endsChain (some t) = false := by
  rcases ht with ht | ht
  · cases hvalue : t.value <;> simp_all [endsChain, Token.startsItem, Token.isCloser]
  · simp [endsChain, ht, Token.isCloser]

/-- What begins an item or a label separates nothing. -/
theorem isSeparator_eq_false {t : Token}
    (ht : t.startsItem = true ∨ t = .openBracket) : t.isSeparator = false := by
  rcases ht with ht | rfl
  · cases t <;> simp_all [Token.startsItem, Token.isSeparator]
  · rfl

/-- Where a chain ends no separator is next. -/
theorem isSeparator_eq_false_of_endsChain (hend : endsChain rest.head? = true) :
    ∀ t ∈ rest.head?, t.value.isSeparator = false := by
  intro t ht
  rw [Option.mem_def.1 ht] at hend
  cases hvalue : t.value <;> simp_all [endsChain, Token.isCloser, Token.isSeparator]

/-- A derived label is read where no second one follows it. -/
theorem label?_eq_ok {l : Option BranchLabel} (h : DerivesLabel l ts us)
    (hus : ∀ t ∈ us.head?, t.value ≠ .openBracket) : label? ts = .ok (l, us) := by
  cases h with
  | none =>
    unfold label?
    rw [peek?_bind]
    generalize ts.head? = found at hus
    split
    · exact absurd rfl (hus _ rfl)
    · rfl
  | @some content text opener closer rest htext =>
    obtain ⟨value, span⟩ := text
    rcases htext with rfl | rfl
    · rfl
    · rfl

/-- A derived label of a branch is read, because an item stands behind it. -/
theorem branchLabel?_eq_ok {l : Option BranchLabel} {item : Item} (h : DerivesLabel l ts us)
    (hitem : item.Derives us vs) : branchLabel? ts = .ok (l, us) := by
  obtain ⟨t, us, rfl, ht⟩ := hitem.head
  have hlabel : label? ts = .ok (l, t :: us) := by
    refine label?_eq_ok h fun u hu => ?_
    obtain rfl := Option.some.inj hu
    intro hbracket
    rw [hbracket] at ht
    exact absurd ht (by decide)
  unfold branchLabel?
  rw [bind_of_eq_ok hlabel]
  cases l with
  | none => rfl
  | some l =>
    have hends := endsChain_eq_false (Or.inl ht)
    have hseparates := isSeparator_eq_false (Or.inl ht)
    dsimp only
    rw [peek?_bind, List.head?_cons, if_neg (by simp [hends, hseparates])]
    rfl

/-- A run of separators is read up to the first token that is none. -/
theorem separators_eq_ok {seps : List (Spanned Token)} (hseps : AreSeparators seps)
    (hrest : ∀ t ∈ rest.head?, t.value.isSeparator = false) :
    separators (seps ++ rest) = .ok (runOf seps, rest) :=
  congrArg Except.ok (separatorRun_append hseps hrest)

/-- Separators in front of a chain. -/
theorem separators_eq_ok_of_startsChain {seps : List (Spanned Token)} {t : Spanned Token}
    (hseps : AreSeparators seps) (ht : t.value.startsItem = true ∨ t.value = .openBracket) :
    separators (seps ++ t :: rest) = .ok (runOf seps, t :: rest) := by
  refine separators_eq_ok hseps fun u hu => ?_
  obtain rfl := Option.some.inj hu
  exact isSeparator_eq_false ht

/-- The separators between two lanes are read up to the chain of the next one. -/
theorem startLane_eq_ok {keyword opener : Span} {what : String} {chain : Chain}
    {seps : List (Spanned Token)} (hseps : AreSeparators seps) (hchain : chain.Derives ts rest) :
    startLane keyword opener what (seps ++ ts) = .ok ((), ts) := by
  obtain ⟨t, us, rfl, ht⟩ := hchain.head
  unfold startLane
  rw [bind_of_eq_ok (separators_eq_ok_of_startsChain hseps ht), peek?_bind, List.head?_cons,
    if_neg (by simp [endsChain_eq_false ht])]
  rfl

/-! With three calls for each token, by recursion on the tree. -/

mutual

/-- **A derived item is read**, with fuel for three steps at each of its tokens. -/
theorem item_eq_ok (item : Item) {ts rest : List (Spanned Token)} {fuel : Nat}
    (h : item.Derives ts rest) (hfuel : 3 * ts.length ≤ fuel) :
    TokenReader.item fuel ts = .ok (item, rest) := by
  obtain ⟨t, us, hts, -⟩ := h.head
  obtain ⟨fuel, rfl⟩ : ∃ n, fuel = n + 1 := ⟨fuel - 1, by rw [hts, List.length_cons] at hfuel; omega⟩
  cases item with
  | step label =>
    cases h with
    | quoted => rfl
    | text hplain =>
      unfold TokenReader.item
      rw [peek?_bind, List.head?_cons]
      dsimp only
      rw [skip_bind, peek?_bind, List.tail_cons, group?_eq_none_iff.2 hplain]
      rfl
  | parallel lanes =>
    cases h with
    | @parallel content keyword opener _ us _ hgroup hlanes =>
      have hopen : openGroup (⟨.openParen, opener⟩ :: us) = .ok (opener, us) := rfl
      have hread : TokenReader.lanes fuel keyword opener us = .ok (lanes, rest) :=
        lanes_eq_ok lanes hlanes (by simp only [List.length_cons] at hfuel; omega)
      unfold TokenReader.item
      rw [peek?_bind, List.head?_cons]
      dsimp only
      rw [skip_bind, peek?_bind, List.tail_cons, group?_eq_some_iff.2 hgroup]
      dsimp only
      rw [bind_of_eq_ok hopen, bind_of_eq_ok hread]
      rfl
  | loop back body =>
    cases h with
    | @loop content keyword opener closer label _ us _ _ hgroup hlabel hbody =>
      obtain ⟨hseps, hchain⟩ := hbody
      rename_i seps vs
      have hle := hlabel.length_le
      simp only [List.length_cons, List.length_append] at hle hfuel
      have hback : label? us = .ok (label, ⟨.openParen, opener⟩ :: (seps ++ vs)) :=
        label?_eq_ok hlabel (by simp)
      have hopen : openGroup (⟨.openParen, opener⟩ :: (seps ++ vs)) = .ok (opener, seps ++ vs) := rfl
      have hread : TokenReader.chain fuel vs = .ok (body, ⟨.closeParen, closer⟩ :: rest) :=
        chain_eq_ok body hchain rfl (by omega)
      unfold TokenReader.item
      rw [peek?_bind, List.head?_cons]
      dsimp only
      rw [skip_bind, peek?_bind, List.tail_cons, group?_eq_some_iff.2 hgroup]
      dsimp only
      rw [bind_of_eq_ok hback, bind_of_eq_ok hopen, bind_of_eq_ok (startLane_eq_ok hseps hchain),
        bind_of_eq_ok hread]
      rfl

/-- A derived chain is read where nothing follows that would prolong it. -/
theorem chain_eq_ok (chain : Chain) {ts rest : List (Spanned Token)} {fuel : Nat}
    (h : chain.Derives ts rest) (hend : endsChain rest.head? = true)
    (hfuel : 3 * ts.length + 1 ≤ fuel) : TokenReader.chain fuel ts = .ok (chain, rest) := by
  obtain ⟨fuel, rfl⟩ : ∃ n, fuel = n + 1 := ⟨fuel - 1, by omega⟩
  cases chain with
  | start label item links =>
    cases h with
    | @start _ _ _ _ us vs _ hlabel hitem hlinks =>
      have hle := hlabel.length_le
      have hlt := hitem.length_lt
      have hread : TokenReader.item fuel us = .ok (item, vs) := item_eq_ok item hitem (by omega)
      have hrest : TokenReader.links fuel vs = .ok (links, rest) :=
        links_eq_ok links hlinks hend (by omega)
      unfold TokenReader.chain
      rw [bind_of_eq_ok (branchLabel?_eq_ok hlabel hitem), bind_of_eq_ok hread, bind_of_eq_ok hrest]
      rfl

/-- Derived links are read where nothing follows that would prolong them. -/
theorem links_eq_ok (links : Links) {ts rest : List (Spanned Token)} {fuel : Nat}
    (h : links.Derives ts rest) (hend : endsChain rest.head? = true)
    (hfuel : 3 * ts.length + 1 ≤ fuel) : TokenReader.links fuel ts = .ok (links, rest) := by
  obtain ⟨fuel, rfl⟩ : ∃ n, fuel = n + 1 := ⟨fuel - 1, by omega⟩
  cases links with
  | nil =>
    cases h with
    | @nil seps _ hseps =>
      have hrun := separators_eq_ok hseps (isSeparator_eq_false_of_endsChain hend)
      unfold TokenReader.links
      rw [bind_of_eq_ok hrun]
      cases runOf seps with
      | none => rfl
      | some merges =>
        dsimp only
        rw [peek?_bind, if_pos hend]
        rfl
  | next merges label item links =>
    cases h with
    | @next _ _ _ seps ts us vs _ hseps hne hlabel hitem hlinks =>
      have hle := hlabel.length_le
      have hlt := hitem.length_lt
      rw [List.length_append] at hfuel
      obtain ⟨t, tail, rfl, ht⟩ := Chain.Derives.head (.start hlabel hitem hlinks)
      have hread : TokenReader.item fuel us = .ok (item, vs) := item_eq_ok item hitem (by omega)
      have hrest : TokenReader.links fuel vs = .ok (links, rest) :=
        links_eq_ok links hlinks hend (by omega)
      unfold TokenReader.links
      rw [bind_of_eq_ok (separators_eq_ok_of_startsChain hseps ht), runOf_eq_some_iff.2 ⟨hne, rfl⟩]
      dsimp only
      rw [peek?_bind, List.head?_cons, if_neg (by simp [endsChain_eq_false ht]),
        bind_of_eq_ok (branchLabel?_eq_ok hlabel hitem), bind_of_eq_ok hread, bind_of_eq_ok hrest]
      rfl

/-- Derived lanes are read up to the bracket that closes them. -/
theorem lanes_eq_ok (lanes : Lanes) {ts rest : List (Spanned Token)} {fuel : Nat}
    {keyword opener : Span} (h : lanes.Derives ts rest) (hfuel : 3 * ts.length + 2 ≤ fuel) :
    TokenReader.lanes fuel keyword opener ts = .ok (lanes, rest) := by
  obtain ⟨fuel, rfl⟩ : ∃ n, fuel = n + 1 := ⟨fuel - 1, by omega⟩
  cases lanes with
  | last lane =>
    cases h with
    | @last _ closer _ _ hlane =>
      obtain ⟨hseps, hchain⟩ := hlane
      rename_i seps us
      rw [List.length_append] at hfuel
      have hread : TokenReader.chain fuel us = .ok (lane, ⟨.closeParen, closer⟩ :: rest) :=
        chain_eq_ok lane hchain rfl (by omega)
      unfold TokenReader.lanes
      rw [bind_of_eq_ok (startLane_eq_ok hseps hchain), bind_of_eq_ok hread]
      rfl
  | cons lane lanes =>
    cases h with
    | @cons _ _ pipe _ vs _ hlane hlanes =>
      obtain ⟨hseps, hchain⟩ := hlane
      rename_i seps us
      have hle := hchain.length_le
      simp only [List.length_cons, List.length_append] at hfuel hle
      have hread : TokenReader.chain fuel us = .ok (lane, ⟨.pipe, pipe⟩ :: vs) :=
        chain_eq_ok lane hchain rfl (by omega)
      have hrest : TokenReader.lanes fuel keyword opener vs = .ok (lanes, rest) :=
        lanes_eq_ok lanes hlanes (by omega)
      unfold TokenReader.lanes
      rw [bind_of_eq_ok (startLane_eq_ok hseps hchain), bind_of_eq_ok hread, peek?_bind,
        List.head?_cons]
      dsimp only
      rw [skip_bind, List.tail_cons, bind_of_eq_ok hrest]
      rfl

end

/-! ## Flows -/

/-- **What is read as a flow is derived.** -/
theorem derivesFlow_of_flow {fuel : Nat} {found : Option Chain}
    (h : TokenReader.flow fuel ts = .ok (found, rest)) : DerivesFlow found ts := by
  unfold TokenReader.flow at h
  obtain ⟨seps, us, rfl, hseps, h⟩ := exists_of_separators_bind h
  obtain ⟨next, hnext, h⟩ := exists_of_peek?_bind h
  split at h
  · obtain ⟨rfl, rfl⟩ := pure_eq_ok_iff.1 h
    rw [List.head?_eq_none_iff.1 hnext, List.append_nil]
    exact .empty hseps
  · obtain ⟨chain, vs, hchain, h⟩ := bind_eq_ok_iff.1 h
    obtain ⟨last, hlast, h⟩ := exists_of_peek?_bind h
    split at h
    · obtain ⟨rfl, rfl⟩ := pure_eq_ok_iff.1 h
      have hderives := (allDerive fuel).chain _ _ _ hchain
      rw [List.head?_eq_none_iff.1 hlast] at hderives
      exact .chain (.lane hseps hderives)
    · split at h
      · exact absurd h fail_ne_ok
      · split at h
        · exact absurd h fail_ne_ok
        · exact absurd h fail_ne_ok

/-- **A derived flow is read**, and no token is left. -/
theorem flow_eq_ok {fuel : Nat} {found : Option Chain} (h : DerivesFlow found ts)
    (hfuel : 3 * ts.length + 1 ≤ fuel) : TokenReader.flow fuel ts = .ok (found, []) := by
  cases h with
  | empty hseps =>
    have hrun : separators (ts ++ []) = .ok (runOf ts, []) := separators_eq_ok hseps (by simp)
    rw [List.append_nil] at hrun
    unfold TokenReader.flow
    rw [bind_of_eq_ok hrun]
    rfl
  | @chain chain _ hlane =>
    obtain ⟨hseps, hchain⟩ := hlane
    rename_i seps us
    obtain ⟨t, tail, rfl, ht⟩ := hchain.head
    rw [List.length_append] at hfuel
    have hread : TokenReader.chain fuel (t :: tail) = .ok (chain, []) :=
      chain_eq_ok chain hchain rfl (by omega)
    unfold TokenReader.flow
    rw [bind_of_eq_ok (separators_eq_ok_of_startsChain hseps ht), peek?_bind, List.head?_cons]
    dsimp only
    rw [bind_of_eq_ok hread]
    rfl

end TokenReader

/-- Parsing reads the significant tokens with fuel for three steps at each of them. -/
theorem parse_eq_map (tokens : List (Spanned Token)) :
    parse tokens =
      (TokenReader.flow (3 * (significant tokens).length + 3) (significant tokens)).map Prod.fst := by
  unfold parse significant
  dsimp only
  split
  · next hread => rw [hread, Except.map]
  · next hread => rw [hread, Except.map]

/-- **A flow is read exactly when the grammar derives it.** -/
theorem parse_eq_ok_iff {tokens : List (Spanned Token)} {flow : Option Chain} :
    parse tokens = .ok flow ↔ DerivesFlow flow (significant tokens) := by
  rw [parse_eq_map]
  constructor
  · intro h
    cases hread : TokenReader.flow (3 * (significant tokens).length + 3) (significant tokens) with
    | error fault =>
      rw [hread, Except.map] at h
      exact absurd h (by simp)
    | ok found =>
      obtain ⟨found, rest⟩ := found
      rw [hread, Except.map, Except.ok.injEq] at h
      exact h ▸ TokenReader.derivesFlow_of_flow hread
  · intro h
    rw [TokenReader.flow_eq_ok h (by omega), Except.map]

/-- **The reader accepts the tokens that the grammar derives**, with the tree of the derivation, and
there is no other tree. -/
theorem parse_isExact (tokens : List (Spanned Token)) :
    ((∃ flow, parse tokens = .ok flow) ↔ ∃ flow, DerivesFlow flow (significant tokens)) ∧
      (∀ flow, parse tokens = .ok flow ↔ DerivesFlow flow (significant tokens)) ∧
      ∀ flow other, DerivesFlow flow (significant tokens) →
        DerivesFlow other (significant tokens) → flow = other := by
  refine ⟨exists_congr fun _ => parse_eq_ok_iff, fun _ => parse_eq_ok_iff, ?_⟩
  intro flow other hflow hother
  have hread := (parse_eq_ok_iff.2 hflow).symm.trans (parse_eq_ok_iff.2 hother)
  exact Except.ok.inj hread

end Flowchart.Flow
