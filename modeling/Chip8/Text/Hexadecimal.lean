/-!
# Hexadecimal text

Numbers written with the upper-case digits `0`–`F` behind `0x`.  `digits` uses the fewest digits, and zero has one;
`text` fills up with zeros to a least number of digits and never cuts a longer number.
-/

namespace Chip8.Hexadecimal

/-- The sixteen digits in the order of their values. -/
def alphabet : List Char :=
  ['0', '1', '2', '3', '4', '5', '6', '7', '8', '9', 'A', 'B', 'C', 'D', 'E', 'F']

/-- The digit for a value below sixteen. -/
def digit (value : Nat) : Char := alphabet.getD value '0'

/-- The digits of a number, the most significant one first. -/
def digits (n : Nat) : List Char :=
  if n < 16 then [digit n] else digits (n / 16) ++ [digit (n % 16)]
termination_by n
decreasing_by omega

/-- A number behind `0x` with at least `width` digits. -/
def text (width n : Nat) : String :=
  "0x" ++ String.ofList ((digits n).leftpad width '0')

theorem digits_of_lt {n : Nat} (h : n < 16) : digits n = [digit n] := by
  rw [digits, if_pos h]

theorem digits_of_le {n : Nat} (h : 16 ≤ n) : digits n = digits (n / 16) ++ [digit (n % 16)] := by
  rw [digits, if_neg (by omega)]

theorem length_digits_pos (n : Nat) : 0 < (digits n).length := by
  rw [digits]
  split <;> simp

end Chip8.Hexadecimal
