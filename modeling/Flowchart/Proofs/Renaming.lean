import Flowchart.Proofs.Diagram
import Flowchart.Proofs.Source.Reads
import Flowchart.Renaming

/-!
# Renamed ids are distinct words

An id that must be renamed tries the candidates for its word one after the other. They differ even
where the case of letters does not count, so **one of them is free**: there are more candidates than
taken ids and reserved words. Ids that may stay are taken from the start. By induction over the ids no
output id is given twice, and each is a word that is not reserved.
-/

namespace Flowchart

open Text (isWordChar lower sameLetters)

/-! ## Reserved words -/

/-- An id is allowed if it is a word that is not reserved. -/
theorem ReservedWords.allows_iff {r : ReservedWords} {id : String} :
    r.allows id = true ↔ Text.IsWord id.toList ∧ r.contains id = false := by
  rw [allows, Bool.and_eq_true, Bool.and_eq_true, decide_eq_true_eq, List.all_eq_true,
    Bool.not_eq_true']
  constructor
  · rintro ⟨⟨hne, hall⟩, hfree⟩
    exact ⟨⟨by simpa using hne, hall⟩, hfree⟩
  · rintro ⟨⟨hne, hall⟩, hfree⟩
    exact ⟨⟨by simpa using hne, hall⟩, hfree⟩

/-- A reserved word has the letters of one of the words. -/
theorem ReservedWords.mem_lower {r : ReservedWords} {word : String} (h : r.contains word = true) :
    lower word.toList ∈ r.words.map fun w => lower w.toList := by
  obtain ⟨w, hw, hsame⟩ := List.any_eq_true.1 h
  refine List.mem_map.2 ⟨w, hw, ?_⟩
  split at hsame
  · simpa [sameLetters] using hsame
  · rw [eq_of_beq hsame]

namespace Renaming

/-! ## Candidates -/

/-- The word for an id is a word. -/
theorem isWord_wordFor (id : String) : Text.IsWord (wordFor id).toList := by
  unfold wordFor
  split
  · exact ⟨by decide, by decide⟩
  · next hne =>
    rw [String.toList_ofList]
    refine ⟨by simpa using hne, fun c hc => ?_⟩
    obtain ⟨d, -, rfl⟩ := List.mem_map.1 hc
    split
    · assumption
    · decide

/-- A later candidate has its number behind the word. -/
theorem toList_candidate_succ (word : String) (n : Nat) :
    (candidate word (n + 1)).toList = word.toList ++ '_' :: Nat.toDigits 10 (n + 1) := by
  simp [candidate, toString]

/-- Digits are word characters. -/
theorem isWordChar_of_isDigit {c : Char} (h : c.isDigit = true) : isWordChar c = true := by
  have halnum : c.isAlphanum = true := by
    rw [Char.isAlphanum, h, Bool.or_true]
  rw [isWordChar, Text.isAlphanumeric_of_isAlphanum halnum, Bool.true_or]

/-- Every candidate for a word is a word. -/
theorem isWord_candidate {word : String} (h : Text.IsWord word.toList) (n : Nat) :
    Text.IsWord (candidate word n).toList := by
  cases n with
  | zero => exact h
  | succ n =>
    rw [toList_candidate_succ]
    refine ⟨by simp, fun c hc => ?_⟩
    rw [List.mem_append, List.mem_cons] at hc
    rcases hc with hc | rfl | hc
    · exact h.isWordChar c hc
    · decide
    · exact isWordChar_of_isDigit (Nat.isDigit_of_mem_toDigits (by decide) (by decide) hc)

/-- Digits have no case. -/
theorem lower_toDigits (n : Nat) : lower (Nat.toDigits 10 n) = Nat.toDigits 10 n := by
  have hlower : ∀ c ∈ Nat.toDigits 10 n, c.toLower = c := by
    intro c hc
    have hdigit := Nat.isDigit_of_mem_toDigits (by decide) (by decide) hc
    simp only [Char.isDigit, Bool.and_eq_true, decide_eq_true_eq] at hdigit
    rw [Char.toLower, dif_neg]
    rintro ⟨hupper, -⟩
    exact absurd (UInt32.le_trans hupper hdigit.2) (by decide)
  rw [lower, List.map_congr_left hlower, List.map_id']

/-- **The candidates for a word are different**, whatever the case of their letters. -/
theorem lower_candidate_injective (word : String) :
    Function.Injective fun n => lower (candidate word n).toList := by
  have hsucc : ∀ n, lower (candidate word (n + 1)).toList =
      lower word.toList ++ '_' :: Nat.toDigits 10 (n + 1) := by
    intro n
    rw [toList_candidate_succ, lower, List.map_append, List.map_cons, ← lower, ← lower,
      lower_toDigits]
    rfl
  have hlen : ∀ n, lower word.toList ≠ lower (candidate word (n + 1)).toList := by
    intro n h
    have hlength := congrArg List.length h
    rw [hsucc, List.length_append, List.length_cons] at hlength
    omega
  -- the word itself is shorter than the other candidates, and these differ in their number
  intro m n h
  cases m with
  | zero =>
    cases n with
    | zero => rfl
    | succ n => exact absurd h (hlen n)
  | succ m =>
    cases n with
    | zero => exact absurd h.symm (hlen m)
    | succ n =>
      simp only [hsucc, List.append_cancel_left_eq, List.cons.injEq, true_and] at h
      rw [← Nat.ofDigitChars_toDigits (n := m + 1) (b := 10) (by decide) (by decide), h,
        Nat.ofDigitChars_toDigits (by decide) (by decide)]

/-! ## The first free candidate -/

/-- The candidate can be given: it is neither taken nor reserved. -/
def IsFree (reserved : ReservedWords) (taken : List String) (name : String) : Prop :=
  name ∉ taken ∧ reserved.contains name = false

/-- **The first free candidate is free**, if there is a free one within reach. -/
theorem firstFree_spec {reserved : ReservedWords} {taken : List String} {word : String}
    {fuel n : Nat} (h : ∃ m, n ≤ m ∧ m ≤ n + fuel ∧ IsFree reserved taken (candidate word m)) :
    (∃ m, firstFree reserved taken word fuel n = candidate word m) ∧
      IsFree reserved taken (firstFree reserved taken word fuel n) := by
  induction fuel generalizing n with
  | zero =>
    obtain ⟨m, hn, hm, hfree⟩ := h
    obtain rfl : m = n := by omega
    exact ⟨⟨m, rfl⟩, hfree⟩
  | succ fuel ih =>
    rw [firstFree]
    split
    · next hblocked =>
      obtain ⟨m, hn, hm, hfree⟩ := h
      refine ih ⟨m, ?_, by omega, hfree⟩
      have hne : m ≠ n := by
        rintro rfl
        obtain ⟨htaken, hreserved⟩ := hfree
        rw [Bool.or_eq_true, hreserved] at hblocked
        simp [htaken] at hblocked
      omega
    · next hfree =>
      rw [Bool.or_eq_true, not_or] at hfree
      exact ⟨⟨n, rfl⟩, by simpa using hfree.1, by simpa using hfree.2⟩

/-- Some candidate is free, because there are more of them than taken and reserved words. -/
theorem exists_isFree (reserved : ReservedWords) (taken : List String) (word : String) :
    ∃ m, 0 ≤ m ∧ m ≤ 0 + (taken.length + reserved.words.length) ∧
      IsFree reserved taken (candidate word m) := by
  -- pigeonhole: the candidates have different letters, and there is one more than blocked words
  by_contra hnone
  let blocked := (taken ++ reserved.words).map fun w => lower w.toList
  let tried := (List.range (taken.length + reserved.words.length + 1)).map fun n =>
    lower (candidate word n).toList
  have hnodup : tried.Nodup := List.nodup_range.map (lower_candidate_injective word)
  have hsubset : tried ⊆ blocked := by
    intro letters hletters
    obtain ⟨m, hm, rfl⟩ := List.mem_map.1 hletters
    rw [List.mem_range] at hm
    have hno : ¬ IsFree reserved taken (candidate word m) :=
      fun hfree => hnone ⟨m, Nat.zero_le m, by omega, hfree⟩
    rw [IsFree, not_and_or, not_not, Bool.not_eq_false] at hno
    simp only [blocked, List.map_append, List.mem_append]
    rcases hno with htaken | hreserved
    · exact Or.inl (List.mem_map_of_mem (f := fun w : String => lower w.toList) htaken)
    · exact Or.inr (ReservedWords.mem_lower hreserved)
  have hlen := hnodup.length_le_of_subset hsubset
  simp only [tried, blocked, List.length_map, List.length_range, List.length_append] at hlen
  omega

/-- The name that a renamed id gets is a free word. -/
theorem firstFree_wordFor (reserved : ReservedWords) (taken : List String) (id : String) :
    let name := firstFree reserved taken (wordFor id) (taken.length + reserved.words.length) 0
    name ∉ taken ∧ reserved.allows name = true := by
  obtain ⟨⟨m, hname⟩, hnew, hfree⟩ := firstFree_spec (exists_isFree reserved taken (wordFor id))
  refine ⟨hnew, ReservedWords.allows_iff.2 ⟨?_, hfree⟩⟩
  rw [hname]
  exact isWord_candidate (isWord_wordFor id) m

/-! ## Giving the names -/

/-- Names are given to the ids in their order. -/
theorem map_fst_assign (reserved : ReservedWords) (taken ids : List String) :
    (assign reserved taken ids).map Prod.fst = ids := by
  induction ids generalizing taken with
  | nil => rfl
  | cons id rest ih =>
    unfold assign
    split
    · rw [List.map_cons, ih]
    · rw [List.map_cons, ih]

/-- Every id that is given is allowed, and it is either an id that stays or was not taken. -/
theorem assign_spec {reserved : ReservedWords} {taken ids : List String} :
    ∀ p ∈ assign reserved taken ids,
      reserved.allows p.2 = true ∧ (p.2 = p.1 ∨ p.2 ∉ taken) := by
  induction ids generalizing taken with
  | nil => simp [assign]
  | cons id rest ih =>
    unfold assign
    split
    · next hallows =>
      intro p hp
      rcases List.mem_cons.1 hp with rfl | hp
      · exact ⟨hallows, Or.inl rfl⟩
      · exact ih p hp
    · obtain ⟨hnew, hallows⟩ := firstFree_wordFor reserved taken id
      intro p hp
      rcases List.mem_cons.1 hp with rfl | hp
      · exact ⟨hallows, Or.inr hnew⟩
      · obtain ⟨hp, hstays⟩ := ih p hp
        exact ⟨hp, hstays.imp_right fun h hmem => h (List.mem_cons_of_mem _ hmem)⟩

/-- **No name is given twice**, if the ids that stay are taken from the start. -/
theorem nodup_map_snd_assign {reserved : ReservedWords} {taken ids : List String} (h : ids.Nodup)
    (htaken : ∀ id ∈ ids, reserved.allows id = true → id ∈ taken) :
    ((assign reserved taken ids).map Prod.snd).Nodup := by
  induction ids generalizing taken with
  | nil => simp [assign]
  | cons id rest ih =>
    rw [List.nodup_cons] at h
    have hrest : ∀ taken, ∀ p ∈ assign reserved taken rest, p.1 ∈ rest := by
      intro taken p hp
      rw [← map_fst_assign reserved taken rest]
      exact List.mem_map_of_mem hp
    unfold assign
    split
    -- the id stays: another id that got its name would have got a taken one
    · next hallows =>
      rw [List.map_cons, List.nodup_cons]
      refine ⟨fun hmem => ?_, ih h.2 fun i hi => htaken i (List.mem_cons_of_mem id hi)⟩
      obtain ⟨p, hp, hpid⟩ : ∃ p ∈ assign reserved taken rest, p.2 = id := List.mem_map.1 hmem
      rcases (assign_spec p hp).2 with hstays | hnew
      · exact h.1 (by rw [← hpid, hstays]; exact hrest taken p hp)
      · exact hnew (by rw [hpid]; exact htaken id List.mem_cons_self hallows)
    -- the id is renamed: its name is new to the ids that stay, and taken for those that follow
    · obtain ⟨hnew, -⟩ := firstFree_wordFor reserved taken id
      generalize firstFree reserved taken (wordFor id) _ 0 = name at hnew
      rw [List.map_cons, List.nodup_cons]
      refine ⟨fun hmem => ?_, ih h.2 fun i hi hallows =>
        List.mem_cons_of_mem name (htaken i (List.mem_cons_of_mem id hi) hallows)⟩
      obtain ⟨p, hp, hpname⟩ : ∃ p ∈ assign reserved (name :: taken) rest, p.2 = name :=
        List.mem_map.1 hmem
      obtain ⟨hallows, hstays | hother⟩ := assign_spec p hp
      · have hmem : p.2 ∈ id :: rest := by
          rw [hstays]
          exact List.mem_cons_of_mem id (hrest _ p hp)
        exact hnew (hpname ▸ htaken p.2 hmem hallows)
      · exact hother (by rw [hpname]; exact List.mem_cons_self)

/-! ## The renaming of a diagram -/

/-- The ids of a diagram are those of its nodes and of the ends of its edges. -/
theorem mem_idsOf {d : Diagram} {id : String} :
    id ∈ idsOf d ↔ id ∈ d.ids ∨ ∃ e ∈ d.edges, id = e.source ∨ id = e.target := by
  rw [idsOf, Search.mem_fresh]
  simp

/-- The pair of an id that the diagram has. -/
theorem mem_pairs_ofDiagram (reserved : ReservedWords) {d : Diagram} {id : String}
    (h : id ∈ idsOf d) :
    (id, (ofDiagram reserved d).apply id) ∈ (ofDiagram reserved d).pairs := by
  have hfst : id ∈ (ofDiagram reserved d).pairs.map Prod.fst := by
    rw [ofDiagram, map_fst_assign]
    exact h
  obtain ⟨p, hp, hpid⟩ := List.mem_map.1 hfst
  unfold apply
  cases hfind : (ofDiagram reserved d).pairs.find? fun p => p.1 = id with
  | none => exact absurd hpid (by simpa using List.find?_eq_none.1 hfind p hp)
  | some q =>
    have hq : q.1 = id := by simpa using List.find?_some hfind
    rw [← hq]
    exact List.mem_of_find?_eq_some hfind

/-- **An output id is a word that is not reserved.** -/
theorem allows_apply (reserved : ReservedWords) {d : Diagram} {id : String} (h : id ∈ idsOf d) :
    reserved.allows ((ofDiagram reserved d).apply id) = true :=
  (assign_spec _ (mem_pairs_ofDiagram reserved h)).1

/-- **Different ids have different output ids.** -/
theorem apply_injOn (reserved : ReservedWords) {d : Diagram} {a b : String} (ha : a ∈ idsOf d)
    (hb : b ∈ idsOf d)
    (h : (ofDiagram reserved d).apply a = (ofDiagram reserved d).apply b) : a = b := by
  have hnodup : ((ofDiagram reserved d).pairs.map Prod.snd).Nodup := by
    refine nodup_map_snd_assign (Search.nodup_fresh _ _) fun id hid hallows => ?_
    exact List.mem_filter.2 ⟨hid, hallows⟩
  have hpair := List.inj_on_of_nodup_map hnodup (mem_pairs_ofDiagram reserved ha)
    (mem_pairs_ofDiagram reserved hb) h
  exact congrArg Prod.fst hpair

/-- A node under its output id. -/
def node (r : Renaming) (n : Node) : Node := { n with id := r.apply n.id }

/-- An edge between the output ids of its ends. -/
def edge (r : Renaming) (e : Edge) : Edge :=
  { e with source := r.apply e.source, target := r.apply e.target }

variable (reserved : ReservedWords) {d : Diagram}

/-- The ids of nodes are among them. -/
theorem mem_idsOf_of_mem {id : String} (h : id ∈ d.ids) : id ∈ idsOf d :=
  mem_idsOf.2 (Or.inl h)

theorem id_mem_idsOf {n : Node} (h : n ∈ d.nodes) : n.id ∈ idsOf d :=
  mem_idsOf_of_mem (List.mem_map_of_mem h)

/-- The output ids of the nodes are different. -/
theorem nodup_map_apply : (d.ids.map (ofDiagram reserved d).apply).Nodup :=
  List.Nodup.map_on (fun _ ha _ hb h =>
    apply_injOn reserved (mem_idsOf_of_mem ha) (mem_idsOf_of_mem hb) h) d.nodup

/-- Output ids are words. -/
theorem isWord_apply {id : String} (h : id ∈ idsOf d) :
    Text.IsWord ((ofDiagram reserved d).apply id).toList :=
  (ReservedWords.allows_iff.1 (allows_apply reserved h)).1

/-- No output id is reserved. -/
theorem contains_apply {id : String} (h : id ∈ idsOf d) :
    reserved.contains ((ofDiagram reserved d).apply id) = false :=
  (ReservedWords.allows_iff.1 (allows_apply reserved h)).2

/-- No output id is empty. -/
theorem apply_ne_empty {id : String} (h : id ∈ idsOf d) : (ofDiagram reserved d).apply id ≠ "" := by
  intro hempty
  have hne := (isWord_apply reserved h).ne_nil
  rw [hempty] at hne
  exact hne rfl

theorem source_mem_idsOf {e : Edge} (h : e ∈ d.edges) : e.source ∈ idsOf d :=
  mem_idsOf.2 (Or.inr ⟨e, h, Or.inl rfl⟩)

theorem target_mem_idsOf {e : Edge} (h : e ∈ d.edges) : e.target ∈ idsOf d :=
  mem_idsOf.2 (Or.inr ⟨e, h, Or.inr rfl⟩)

/-- Nodes under their output ids have these ids, whatever else changes in them. -/
theorem map_id_map {r : Renaming} {f : Node → Node} (hf : ∀ n, (f n).id = r.apply n.id) :
    (d.nodes.map f).map Node.id = d.ids.map r.apply := by
  rw [Diagram.ids, List.map_map, List.map_map]
  exact List.map_congr_left fun n _ => hf n

/-- No node under its output id is without an id. -/
theorem id_ne_empty_of_mem_map {f : Node → Node}
    (hf : ∀ n, (f n).id = (ofDiagram reserved d).apply n.id) : ∀ n ∈ d.nodes.map f, n.id ≠ "" := by
  intro n hn
  obtain ⟨m, hm, rfl⟩ := List.mem_map.1 hn
  rw [hf m]
  exact apply_ne_empty reserved (id_mem_idsOf hm)

/-- The edges of a valid diagram keep their ends. -/
theorem ends_map_edge (hvalid : d.validate = .ok ()) (r : Renaming) :
    ∀ e ∈ d.edges.map r.edge, e.source ∈ d.ids.map r.apply ∧ e.target ∈ d.ids.map r.apply := by
  intro e he
  obtain ⟨f, hf, rfl⟩ := List.mem_map.1 he
  obtain ⟨hsource, htarget⟩ := Diagram.validate_eq_ok_iff.1 hvalid f hf
  exact ⟨List.mem_map_of_mem hsource, List.mem_map_of_mem htarget⟩

/-! ## Renaming twice -/

/-- An id that is allowed stays, wherever it stands among the ids. -/
theorem snd_eq_fst_of_mem_assign {taken ids : List String} :
    ∀ p ∈ assign reserved taken ids, reserved.allows p.1 = true → p.2 = p.1 := by
  induction ids generalizing taken with
  | nil => exact List.forall_mem_nil _
  | cons id rest ih =>
    rw [assign]
    split
    · exact List.forall_mem_cons.2 ⟨fun _ => rfl, ih⟩
    · next hno => exact List.forall_mem_cons.2 ⟨fun hallows => absurd hallows hno, ih⟩

/-- **An id that can be written stays**, and so does one that the diagram does not have. -/
theorem apply_eq_self_of_allows {id : String}
    (h : id ∈ idsOf d → reserved.allows id = true) : (ofDiagram reserved d).apply id = id := by
  unfold apply
  split
  · next p hfind =>
    have hp : p ∈ (ofDiagram reserved d).pairs := List.mem_of_find?_eq_some hfind
    have hid : p.1 = id := by simpa using List.find?_some hfind
    have hmem : id ∈ idsOf d := by
      rw [← map_fst_assign reserved ((idsOf d).filter reserved.allows) (idsOf d), ← hid]
      exact List.mem_map_of_mem hp
    rw [snd_eq_fst_of_mem_assign reserved p hp (by rw [hid]; exact h hmem), hid]
  · rfl

/-- **Output ids are not renamed again**: a diagram whose nodes have the output ids of another one
keeps its ids. -/
theorem apply_eq_self {e : Diagram} {f : Node → Node}
    (hf : ∀ n, (f n).id = (ofDiagram reserved d).apply n.id) (hnodes : e.nodes = d.nodes.map f)
    (hvalid : e.validate = .ok ()) (id : String) : (ofDiagram reserved e).apply id = id := by
  have hids : e.ids = d.ids.map (ofDiagram reserved d).apply := by
    rw [Diagram.ids, hnodes]
    exact map_id_map hf
  have hallows : ∀ id ∈ idsOf e, reserved.allows id = true := by
    intro id hid
    have hmem : id ∈ e.ids := by
      rcases mem_idsOf.1 hid with hmem | ⟨f, hf, rfl | rfl⟩
      · exact hmem
      · exact (Diagram.validate_eq_ok_iff.1 hvalid f hf).1
      · exact (Diagram.validate_eq_ok_iff.1 hvalid f hf).2
    rw [hids] at hmem
    obtain ⟨old, hold, rfl⟩ := List.mem_map.1 hmem
    exact allows_apply reserved (mem_idsOf_of_mem hold)
  exact apply_eq_self_of_allows reserved (hallows id)

end Renaming

end Flowchart
