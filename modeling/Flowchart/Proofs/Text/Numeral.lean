import Flowchart.Text.Numeral

/-!
# Hexadecimal codes are read back

A code point is written in hexadecimal digits, padded with zeros. The digits of a number are those of
its quotient and then the one of its remainder, and they are read in the same order. So **every code
is read back as the number that it was written for**.
-/

namespace Flowchart.Text

/-! ## Digits -/

/-- The digits that are written. -/
def hexAlphabet : List Char :=
  ['0', '1', '2', '3', '4', '5', '6', '7', '8', '9', 'A', 'B', 'C', 'D', 'E', 'F']

theorem hexDigit?_digitChar : ∀ d < 16, hexDigit? d.digitChar.toUpper = some d := by decide

theorem digitChar_mem_hexAlphabet : ∀ d < 16, d.digitChar.toUpper ∈ hexAlphabet := by decide

/-- A last digit is added to the value of the digits before it. -/
theorem ofDigits_concat (base : Nat) (digits : List Nat) (d : Nat) :
    ofDigits base (digits ++ [d]) = ofDigits base digits * base + d := by
  rw [ofDigits, List.foldl_append]
  rfl

/-- Zeros in front do not count. -/
theorem ofDigits_replicate_zero_append (base n : Nat) (digits : List Nat) :
    ofDigits base (List.replicate n 0 ++ digits) = ofDigits base digits := by
  induction n with
  | zero => rfl
  | succ n ih =>
    rw [List.replicate_succ, List.cons_append, ← ih, ofDigits, ofDigits, List.foldl_cons,
      Nat.zero_mul, Nat.zero_add]

/-! ## Codes -/

theorem mem_hexAlphabet_of_mem_toDigits (n : Nat) :
    ∀ c ∈ (Nat.toDigits 16 n).map Char.toUpper, c ∈ hexAlphabet := by
  induction n using Nat.strongRecOn with
  | ind n ih =>
    rcases Nat.lt_or_ge n 16 with hlt | hge
    · rw [Nat.toDigits_of_lt_base hlt, List.map_singleton]
      exact List.forall_mem_singleton.2 (digitChar_mem_hexAlphabet n hlt)
    · rw [Nat.toDigits_of_base_le (by decide) hge, List.map_append, List.map_singleton]
      intro c hc
      rcases List.mem_append.1 hc with hc | hc
      · exact ih (n / 16) (by omega) c hc
      · rw [List.mem_singleton.1 hc]
        exact digitChar_mem_hexAlphabet (n % 16) (by omega)

/-- The digits of a number are read as values that make up the number. -/
theorem mapM_hexDigit?_toDigits (n : Nat) :
    ∃ values, ((Nat.toDigits 16 n).map Char.toUpper).mapM hexDigit? = some values ∧
      ofDigits 16 values = n := by
  induction n using Nat.strongRecOn with
  | ind n ih =>
    rcases Nat.lt_or_ge n 16 with hlt | hge
    · refine ⟨[n], ?_, by simp [ofDigits]⟩
      rw [Nat.toDigits_of_lt_base hlt, List.map_singleton, List.mapM_cons, hexDigit?_digitChar n hlt]
      rfl
    · obtain ⟨values, hvalues, hnumber⟩ := ih (n / 16) (by omega)
      have hlast := hexDigit?_digitChar (n % 16) (by omega)
      refine ⟨values ++ [n % 16], ?_, ?_⟩
      · rw [Nat.toDigits_of_base_le (by decide) hge, List.map_append, List.map_singleton,
          List.mapM_append, hvalues, List.mapM_cons, hlast]
        rfl
      · rw [ofDigits_concat, hnumber]
        omega

theorem mem_hexAlphabet_of_mem_hexCode {n : Nat} {c : Char} (h : c ∈ hexCode n) :
    c ∈ hexAlphabet := by
  rw [hexCode, List.mem_append] at h
  rcases h with h | h
  · rw [List.eq_of_mem_replicate h]
    decide
  · exact mem_hexAlphabet_of_mem_toDigits n c h

theorem mapM_hexDigit?_replicate (n : Nat) :
    (List.replicate n '0').mapM hexDigit? = some (List.replicate n 0) := by
  induction n with
  | zero => rfl
  | succ n ih =>
    rw [List.replicate_succ, List.mapM_cons, ih]
    rfl

/-- **A code is read back.** -/
theorem hexadecimal?_hexCode (n : Nat) : hexadecimal? (hexCode n) = some n := by
  obtain ⟨values, hvalues, hnumber⟩ := mapM_hexDigit?_toDigits n
  have hread : (hexCode n).mapM hexDigit? =
      some (List.replicate (4 - ((Nat.toDigits 16 n).map Char.toUpper).length) 0 ++ values) := by
    rw [hexCode, List.mapM_append, mapM_hexDigit?_replicate, hvalues]
    rfl
  rw [hexadecimal?]
  cases hcode : hexCode n with
  | nil =>
    have hnone : hexCode n ≠ [] := by
      rw [hexCode]
      simp [Nat.toDigits_ne_nil]
    exact absurd hcode hnone
  | cons c cs =>
    -- no sign is dropped in front of the digits
    have hplus : c ≠ '+' := by
      have hmem := mem_hexAlphabet_of_mem_hexCode (n := n) (c := c) (by rw [hcode]; simp)
      rintro rfl
      revert hmem
      decide
    have hdrop : dropPlus (c :: cs) = c :: cs := by
      rw [dropPlus]
      exact fun _ h => hplus (List.head_eq_of_cons_eq h)
    rw [hcode] at hread
    simp only [hdrop, hread, Option.map_some, ofDigits_replicate_zero_append, hnumber]

/-- The code of a character has at most six digits. -/
theorem length_hexCode_le (c : Char) : (hexCode c.toNat).length ≤ 6 := by
  have hlt : c.toNat < 16 ^ 6 := by
    have h := c.valid
    simp only [UInt32.isValidChar, Nat.isValidChar] at h
    have hval : c.toNat = c.val.toNat := rfl
    omega
  have hdigits := (Nat.length_toDigits_le_iff (b := 16) (by decide) (by decide)).2 hlt
  rw [hexCode, List.length_append, List.length_replicate, List.length_map]
  omega

theorem charOfCode?_toNat (c : Char) : charOfCode? c.toNat = some c := by
  have hvalid : c.toNat.isValidChar := c.valid
  rw [charOfCode?, if_pos hvalid, Char.ofNat_toNat]

end Flowchart.Text
