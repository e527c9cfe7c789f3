import Flowchart.Proofs.Renaming
import Mathlib.Data.Set.Card

/-!
# The search for a name

Which words are reserved is up to the notation, so the search for a name only asks whether a candidate
is blocked. It holds the candidate to ask about and the suffix of the next one, a counter of 32 bits;
where the counter would overflow the search stops without a name (`Tries`). `Assigns` goes through the
ids of a diagram in this way.

Both always end, and with one result. **A search overflows exactly if the first 2³¹ - 1 candidates are
all blocked**, so as many words are taken or reserved; short of that it finds what `firstFree` finds,
and the ids get the names that `assign` gives them.
-/

namespace Flowchart.Renaming

open Text (isWordChar)

/-! ## Candidates and the counter -/

/-- What the search holds: the candidate to ask about, and the suffix of the next one. -/
structure Attempt where
  candidate : String
  suffix : Int32

/-- The next candidate; there is none if the suffix cannot be raised. -/
def Attempt.next? (word : String) (a : Attempt) : Option Attempt :=
  if a.suffix = Int32.maxValue then none else some ⟨s!"{word}_{a.suffix}", a.suffix + 1⟩

/-- The number of candidates that can be asked about. -/
def candidateLimit : Nat := 2 ^ 31 - 1

/-- What the search holds when it asks about a candidate. -/
def attempt (word : String) (n : Nat) : Attempt := ⟨candidate word n, .ofNat (n + 1)⟩

variable {word : String} {n : Nat}

/-- As long as there are candidates the suffix counts them. -/
theorem toInt_suffix_attempt (word : String) (h : n < candidateLimit) :
    (attempt word n).suffix.toInt = n + 1 := by
  unfold candidateLimit at h
  exact Int32.toInt_ofNat_of_lt (by omega)

/-- The search goes on with the candidate of the next number. -/
theorem next?_attempt (h : n + 1 < candidateLimit) :
    (attempt word n).next? word = some (attempt word (n + 1)) := by
  have hsuffix := toInt_suffix_attempt word (Nat.lt_of_succ_lt h)
  have hne : (attempt word n).suffix ≠ Int32.maxValue := by
    rintro heq
    rw [heq, Int32.toInt_maxValue] at hsuffix
    unfold candidateLimit at h
    omega
  have hcandidate : s!"{word}_{(attempt word n).suffix}" = candidate word (n + 1) := by
    have hshown : toString (attempt word n).suffix = toString (attempt word n).suffix.toInt := rfl
    rw [candidate, hshown, hsuffix]
    rfl
  have hraised : (attempt word n).suffix + 1 = .ofNat (n + 1 + 1) := (Int32.ofNat_add (n + 1) 1).symm
  rw [Attempt.next?, if_neg hne, hcandidate, hraised]
  rfl

/-- Behind the last candidate the counter overflows. -/
theorem next?_attempt_last (h : n + 1 = candidateLimit) : (attempt word n).next? word = none := by
  have hsuffix := toInt_suffix_attempt word (Nat.lt_of_succ_le h.le)
  refine if_pos (Int32.toInt_inj.1 ?_)
  rw [hsuffix, Int32.toInt_maxValue]
  unfold candidateLimit at h
  omega

/-! ## One search -/

/-- The search from an attempt on ends with a name, or without one where the suffix overflows. -/
inductive Tries (isBlocked : String → Bool) (word : String) : Attempt → Option String → Prop
  | free {a : Attempt} (h : isBlocked a.candidate = false) :
      Tries isBlocked word a (some a.candidate)
  | blocked {a b : Attempt} {result : Option String} (h : isBlocked a.candidate = true)
      (hnext : a.next? word = some b) (next : Tries isBlocked word b result) :
      Tries isBlocked word a result
  | overflow {a : Attempt} (h : isBlocked a.candidate = true) (hnext : a.next? word = none) :
      Tries isBlocked word a none

variable {isBlocked : String → Bool}

/-- A search has one result. -/
theorem Tries.unique {a : Attempt} {result result' : Option String}
    (h : Tries isBlocked word a result) (h' : Tries isBlocked word a result') : result = result' := by
  induction h with
  | free hfree =>
    cases h' with
    | free => rfl
    | blocked hblocked | overflow hblocked => exact absurd hblocked (by simp [hfree])
  | blocked hblocked hnext _ ih =>
    cases h' with
    | free hfree => exact absurd hblocked (by simp [hfree])
    | blocked _ hnext' h' =>
      rw [hnext] at hnext'
      obtain rfl := Option.some.inj hnext'
      exact ih h'
    | overflow _ hnext' =>
      rw [hnext] at hnext'
      exact absurd hnext' (by simp)
  | overflow hblocked hnext =>
    cases h' with
    | free hfree => exact absurd hblocked (by simp [hfree])
    | blocked _ hnext' =>
      rw [hnext] at hnext'
      exact absurd hnext' (by simp)
    | overflow => rfl

/-- The search finds the first candidate that is not blocked. -/
theorem tries_candidate {m : Nat} (hn : n ≤ m) (hm : m < candidateLimit)
    (hfree : isBlocked (candidate word m) = false)
    (hblocked : ∀ k, n ≤ k → k < m → isBlocked (candidate word k) = true) :
    Tries isBlocked word (attempt word n) (some (candidate word m)) := by
  obtain ⟨left, rfl⟩ := Nat.exists_eq_add_of_le hn
  induction left generalizing n with
  | zero => exact .free (a := attempt word n) hfree
  | succ left ih =>
    have hshift : n + (left + 1) = n + 1 + left := by omega
    rw [hshift] at hfree hm hblocked ⊢
    refine .blocked (hblocked n (Nat.le_refl n) (by omega)) (next?_attempt (by omega)) ?_
    exact ih (by omega) hm hfree fun k hk => hblocked k (by omega)

/-- The search stops at the last candidate if that one is blocked too. -/
theorem tries_none (hn : n < candidateLimit)
    (hblocked : ∀ k, n ≤ k → k < candidateLimit → isBlocked (candidate word k) = true) :
    Tries isBlocked word (attempt word n) none := by
  obtain ⟨left, hleft⟩ := Nat.exists_eq_add_of_lt hn
  induction left generalizing n with
  | zero => exact .overflow (hblocked n (Nat.le_refl n) hn) (next?_attempt_last hleft.symm)
  | succ left ih =>
    refine .blocked (hblocked n (Nat.le_refl n) hn) (next?_attempt (by omega)) ?_
    exact ih (by omega) (fun k hk => hblocked k (by omega)) (by omega)

/-- A candidate is the first that is not blocked, or all are blocked. -/
theorem exists_first_or_all (isBlocked : String → Bool) (word : String) :
    (∃ m < candidateLimit, isBlocked (candidate word m) = false ∧
      ∀ k < m, isBlocked (candidate word k) = true) ∨
    ∀ m < candidateLimit, isBlocked (candidate word m) = true := by
  by_cases hall : ∀ m < candidateLimit, isBlocked (candidate word m) = true
  · exact Or.inr hall
  · have hfree : ∃ m, m < candidateLimit ∧ isBlocked (candidate word m) = false := by
      simpa only [not_forall, Bool.not_eq_true, exists_prop] using hall
    obtain ⟨hm, hfound⟩ := Nat.find_spec hfree
    refine Or.inl ⟨_, hm, hfound, fun k hk => ?_⟩
    by_contra hno
    exact Nat.find_min hfree hk ⟨hk.trans hm, Bool.eq_false_iff.2 hno⟩

/-- **Where a search ends**: with the first candidate that is not blocked, or without a name if as
many candidates are blocked as can be asked about. -/
theorem tries_iff {result : Option String} :
    Tries isBlocked word (attempt word 0) result ↔
      (∃ m < candidateLimit, result = some (candidate word m) ∧
        isBlocked (candidate word m) = false ∧ ∀ k < m, isBlocked (candidate word k) = true) ∨
      (result = none ∧ ∀ m < candidateLimit, isBlocked (candidate word m) = true) := by
  constructor
  · intro h
    rcases exists_first_or_all isBlocked word with ⟨m, hm, hfree, hblocked⟩ | hall
    · exact Or.inl ⟨m, hm, h.unique (tries_candidate (Nat.zero_le m) hm hfree fun k _ => hblocked k),
        hfree, hblocked⟩
    · exact Or.inr ⟨h.unique (tries_none (by decide) fun k _ => hall k), hall⟩
  · rintro (⟨m, hm, rfl, hfree, hblocked⟩ | ⟨rfl, hblocked⟩)
    · exact tries_candidate (Nat.zero_le m) hm hfree fun k _ => hblocked k
    · exact tries_none (by decide) fun k _ => hblocked k

/-- **Every search ends.** -/
theorem exists_tries (isBlocked : String → Bool) (word : String) :
    ∃ result, Tries isBlocked word (attempt word 0) result := by
  rcases exists_first_or_all isBlocked word with ⟨m, hm, hfree, hblocked⟩ | hall
  · exact ⟨_, tries_iff.2 (Or.inl ⟨m, hm, rfl, hfree, hblocked⟩)⟩
  · exact ⟨none, tries_iff.2 (Or.inr ⟨rfl, hall⟩)⟩

/-! ## All ids -/

/-- The id is a word that is not reserved. -/
def isPlain (isReserved : String → Bool) (id : String) : Bool :=
  id ≠ "" && id.toList.all isWordChar && !isReserved id

/-- The ids, one after the other, get these names: plain ids stay, and the others search for a name
that is neither taken nor reserved. There are no names if one of the searches overflows. -/
inductive Assigns (isReserved : String → Bool) :
    List String → List String → Option (List (String × String)) → Prop
  | nil {taken : List String} : Assigns isReserved taken [] (some [])
  | plain {taken rest : List String} {id : String} {result : Option (List (String × String))}
      (h : isPlain isReserved id = true) (next : Assigns isReserved taken rest result) :
      Assigns isReserved taken (id :: rest) (result.map ((id, id) :: ·))
  | renamed {taken rest : List String} {id name : String} {result : Option (List (String × String))}
      (h : isPlain isReserved id = false)
      (search : Tries (fun word => taken.contains word || isReserved word) (wordFor id)
        (attempt (wordFor id) 0) (some name))
      (next : Assigns isReserved (name :: taken) rest result) :
      Assigns isReserved taken (id :: rest) (result.map ((id, name) :: ·))
  | overflow {taken rest : List String} {id : String} (h : isPlain isReserved id = false)
      (search : Tries (fun word => taken.contains word || isReserved word) (wordFor id)
        (attempt (wordFor id) 0) none) :
      Assigns isReserved taken (id :: rest) none

variable {isReserved : String → Bool} {taken ids : List String}

/-- The ids get their names in one way. -/
theorem Assigns.unique {result result' : Option (List (String × String))}
    (h : Assigns isReserved taken ids result) (h' : Assigns isReserved taken ids result') :
    result = result' := by
  induction h generalizing result' with
  | nil =>
    cases h'
    rfl
  | plain hplain _ ih =>
    cases h' with
    | plain _ hnext => rw [ih hnext]
    | renamed hno | overflow hno => exact absurd hplain (by simp [hno])
  | renamed hno hsearch _ ih =>
    cases h' with
    | plain hplain => exact absurd hplain (by simp [hno])
    | renamed _ hsearch' hnext =>
      obtain rfl := Option.some.inj (hsearch.unique hsearch')
      rw [ih hnext]
    | overflow _ hsearch' => exact absurd (hsearch.unique hsearch') (by simp)
  | overflow hno hsearch =>
    cases h' with
    | plain hplain => exact absurd hplain (by simp [hno])
    | renamed _ hsearch' => exact absurd (hsearch.unique hsearch') (by simp)
    | overflow => rfl

/-- **Going through the ids ends.** -/
theorem exists_assigns (isReserved : String → Bool) (taken ids : List String) :
    ∃ result, Assigns isReserved taken ids result := by
  induction ids generalizing taken with
  | nil => exact ⟨_, .nil⟩
  | cons id rest ih =>
    cases hplain : isPlain isReserved id with
    | true =>
      obtain ⟨result, hresult⟩ := ih taken
      exact ⟨_, .plain hplain hresult⟩
    | false =>
      obtain ⟨found, hfound⟩ :=
        exists_tries (fun word => taken.contains word || isReserved word) (wordFor id)
      cases found with
      | none => exact ⟨none, .overflow hplain hfound⟩
      | some name =>
        obtain ⟨result, hresult⟩ := ih (name :: taken)
        exact ⟨_, .renamed hplain hfound hresult⟩

/-- Plain ids all stay, and none of them needs a search. -/
theorem assigns_of_plain (h : ∀ id ∈ ids, isPlain isReserved id = true) :
    Assigns isReserved taken ids (some (ids.map fun id => (id, id))) := by
  induction ids with
  | nil => exact .nil
  | cons id rest ih =>
    exact .plain (h id List.mem_cons_self) (ih fun i hi => h i (List.mem_cons_of_mem id hi))

/-! ## Names without a bound -/

variable {r : ReservedWords}

/-- The first free candidate is found by the search without a counter. -/
theorem firstFree_eq {fuel m : Nat} (hn : n ≤ m) (hfuel : m ≤ n + fuel)
    (hblocked : ∀ k, n ≤ k → k < m →
      (taken.contains (candidate word k) || r.contains (candidate word k)) = true)
    (hfree : (taken.contains (candidate word m) || r.contains (candidate word m)) = false) :
    firstFree r taken word fuel n = candidate word m := by
  induction fuel generalizing n with
  | zero =>
    obtain rfl : m = n := by omega
    rfl
  | succ fuel ih =>
    rw [firstFree]
    rcases Nat.eq_or_lt_of_le hn with rfl | hlt
    · exact if_neg (by rw [hfree]; exact Bool.false_ne_true)
    · rw [if_pos (hblocked n (Nat.le_refl n) hlt)]
      exact ih (by omega) (by omega) fun k hk => hblocked k (by omega)

/-- A name that a search finds is the one that is given to the id. -/
theorem Tries.eq_firstFree {id name : String}
    (h : Tries (fun word => taken.contains word || r.contains word) (wordFor id)
      (attempt (wordFor id) 0) (some name)) :
    name = firstFree r taken (wordFor id) (taken.length + r.words.length) 0 := by
  rcases tries_iff.1 h with ⟨m, -, heq, hfree, hblocked⟩ | ⟨hnone, -⟩
  · obtain rfl := Option.some.inj heq
    refine (firstFree_eq (Nat.zero_le m) ?_ (fun k _ => hblocked k) hfree).symm
    -- some candidate within the bound is free, and the first one does not come after it
    obtain ⟨k, -, hk, hkfree⟩ := exists_isFree r taken (wordFor id)
    by_contra hlt
    have hkblocked := hblocked k (by omega)
    rw [IsFree, ← List.contains_iff_mem, Bool.not_eq_true] at hkfree
    simp only [hkfree.1, hkfree.2, Bool.or_self, Bool.false_eq_true] at hkblocked
  · exact absurd hnone (by simp)

/-- **The names are those that the ids of a diagram get.** -/
theorem Assigns.eq_assign {pairs : List (String × String)}
    (h : Assigns r.contains taken ids (some pairs)) : pairs = assign r taken ids := by
  generalize hresult : some pairs = result at h
  induction h generalizing pairs with
  | nil => exact Option.some.inj hresult
  | @plain taken rest id result hplain _ ih =>
    obtain ⟨tail, htail, rfl⟩ := Option.map_eq_some_iff.1 hresult.symm
    have hallows : r.allows id = true := hplain
    rw [assign, if_pos hallows, ih htail.symm]
  | @renamed taken rest id name result hno hsearch _ ih =>
    obtain ⟨tail, htail, rfl⟩ := Option.map_eq_some_iff.1 hresult.symm
    have hallows : ¬ r.allows id = true := by
      rw [show r.allows id = false from hno]
      exact Bool.false_ne_true
    rw [assign, if_neg hallows, ← hsearch.eq_firstFree, ih htail.symm]
  | overflow => exact absurd hresult (by simp)

/-! ## Overflow -/

/-- A search that overflows has met as many blocked words as there are candidates. -/
theorem Tries.candidateLimit_le (hfinite : {word | isReserved word = true}.Finite)
    (h : Tries (fun word => taken.contains word || isReserved word) word (attempt word 0) none) :
    candidateLimit ≤ {word | isReserved word = true}.ncard + taken.length := by
  rcases tries_iff.1 h with ⟨m, -, heq, -⟩ | ⟨-, hblocked⟩
  · exact absurd heq (by simp)
  -- the candidates are different, and each of them is taken or reserved
  have hinjective : Function.Injective (candidate word) := fun m n heq =>
    lower_candidate_injective word (congrArg (fun name => Text.lower name.toList) heq)
  have hnodup : ((List.range candidateLimit).map (candidate word)).Nodup :=
    List.nodup_range.map hinjective
  have hsubset : (List.range candidateLimit).map (candidate word) ⊆
      hfinite.toFinset.toList ++ taken := by
    intro name hname
    obtain ⟨m, hm, rfl⟩ := List.mem_map.1 hname
    have hm := hblocked m (List.mem_range.1 hm)
    rw [Bool.or_eq_true, List.contains_iff_mem] at hm
    rw [List.mem_append, Finset.mem_toList, Set.Finite.mem_toFinset]
    exact hm.symm
  have hlength := hnodup.length_le_of_subset hsubset
  rwa [List.length_map, List.length_range, List.length_append, Finset.length_toList,
    ← Set.ncard_eq_toFinset_card _ hfinite] at hlength

/-- Ids of which one finds no name are many, together with the taken and the reserved words. -/
theorem Assigns.candidateLimit_lt (hfinite : {word | isReserved word = true}.Finite)
    (h : Assigns isReserved taken ids none) :
    candidateLimit < {word | isReserved word = true}.ncard + taken.length +
      (ids.filter fun id => !isPlain isReserved id).length := by
  generalize hresult : none = result at h
  induction h with
  | nil => exact absurd hresult (by simp)
  | plain hplain _ ih =>
    have hrest := ih (Option.map_eq_none_iff.1 hresult.symm).symm
    rwa [List.filter_cons_of_neg (by simp [hplain])]
  | renamed hno _ _ ih =>
    have hrest := ih (Option.map_eq_none_iff.1 hresult.symm).symm
    rw [List.filter_cons_of_pos (by simp [hno]), List.length_cons]
    rw [List.length_cons] at hrest
    omega
  | overflow hno hsearch =>
    have hsearch := hsearch.candidateLimit_le hfinite
    rw [List.filter_cons_of_pos (by simp [hno]), List.length_cons]
    omega

end Flowchart.Renaming
