/-!
# Numerals

Unsigned numbers in decimal notation, limited to 64 bits. `word?` reads a text that consists of
digits alone, leading zeros allowed; `signedWord?` also takes a plus sign in front. A number of
2⁶⁴ or more has no reading. `radixValue?` reads digits to any base up to sixteen.
-/

namespace TagWatch.Text

/-- The least number that does not fit into 64 bits. -/
def wordBound : Nat := 18446744073709551616

/-- The number that a list of digits denotes, the most significant first. -/
def digitsValue (s : List Char) : Nat :=
  s.foldl (fun n c => 10 * n + (c.toNat - '0'.toNat)) 0

/-- The 64-bit number that a text of digits denotes. -/
def word? (s : List Char) : Option Nat :=
  if s.isEmpty || !s.all Char.isDigit then none
  else if digitsValue s < wordBound then some (digitsValue s)
  else none

/-- The 64-bit number that a text of digits denotes, with an optional plus sign. -/
def signedWord? : List Char → Option Nat
  | '+' :: s => word? s
  | s => word? s

/-- The value of a hexadecimal digit. -/
def hexValue? (c : Char) : Option Nat :=
  if c.isDigit then some (c.toNat - '0'.toNat)
  else if 'a' ≤ c ∧ c ≤ 'f' then some (c.toNat - 'a'.toNat + 10)
  else if 'A' ≤ c ∧ c ≤ 'F' then some (c.toNat - 'A'.toNat + 10)
  else none

/-- The number that a text of digits to a base denotes; no digits at all denote zero. -/
def radixValue? (base : Nat) (s : List Char) : Option Nat :=
  s.foldlM (fun n c => (hexValue? c).bind fun d => if d < base then some (base * n + d) else none)
    0

theorem word?_eq_some_iff {s : List Char} {n : Nat} :
    word? s = some n ↔ s ≠ [] ∧ (∀ c ∈ s, c.isDigit) ∧ digitsValue s < wordBound ∧
      digitsValue s = n := by
  unfold word?
  by_cases h1 : s = []
  · simp [h1]
  · by_cases h2 : s.all Char.isDigit
    · by_cases h3 : digitsValue s < wordBound
      · simp only [List.all_eq_true] at h2
        simp [h1, h3]
      · simp [h1, h3]
    · simp only [List.all_eq_true] at h2
      simp [h1, h2]

end TagWatch.Text
