/-!
# Numerals and characters by code point

Reading and writing numbers in decimal and hexadecimal digits, for limits and for characters that
are written as their code point.
-/

namespace Flowchart.Text

/-- The value of a hexadecimal digit of either case. -/
def hexDigit? (c : Char) : Option Nat :=
  if c.isDigit then some (c.toNat - '0'.toNat)
  else if 'a' ≤ c ∧ c ≤ 'f' then some (c.toNat - 'a'.toNat + 10)
  else if 'A' ≤ c ∧ c ≤ 'F' then some (c.toNat - 'A'.toNat + 10)
  else none

/-- The value of digits in a base, the most significant first. -/
def ofDigits (base : Nat) (digits : List Nat) : Nat :=
  digits.foldl (fun acc digit => acc * base + digit) 0

/-- Reads one or more ASCII decimal digits. -/
def decimal? (cs : List Char) : Option Nat :=
  if !cs.isEmpty && cs.all Char.isDigit then
    some (ofDigits 10 (cs.map fun c => c.toNat - '0'.toNat))
  else none

/-- Drops one plus sign in front. -/
def dropPlus : List Char → List Char
  | '+' :: rest => rest
  | cs => cs

/-- Reads one or more hexadecimal digits; a plus sign may stand in front. -/
def hexadecimal? (cs : List Char) : Option Nat :=
  match dropPlus cs with
  | [] => none
  | digits => (digits.mapM hexDigit?).map (ofDigits 16)

/-- The first number that does not fit in 64 bits. -/
def numberBound : Nat := UInt64.size

/-- Reads a number of 64 bits in decimal digits; a plus sign may stand in front. -/
def number? (cs : List Char) : Option Nat :=
  match decimal? (dropPlus cs) with
  | some n => if n < numberBound then some n else none
  | none => none

/-- The character of a code point; surrogates and numbers that are too large have none. -/
def charOfCode? (n : Nat) : Option Char := if n.isValidChar then some (Char.ofNat n) else none

/-- Hexadecimal digits in upper case, padded with zeros to four. -/
def hexCode (n : Nat) : List Char :=
  let digits := (Nat.toDigits 16 n).map Char.toUpper
  List.replicate (4 - digits.length) '0' ++ digits

end Flowchart.Text
