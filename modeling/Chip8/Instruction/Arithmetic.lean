import Chip8.Instruction.Basic

/-!
# Arithmetic on two registers

`ArithmeticOp.result` is the byte an operation computes, `ArithmeticOp.flag?` the flag of those operations that set
one: the carry of a sum, the absence of a borrow, or the bit that a shift pushes out.  Shifts look at the first byte
alone.  `result_add` and its neighbours say the same in natural numbers.
-/

namespace Chip8.ArithmeticOp

def result : ArithmeticOp → UInt8 → UInt8 → UInt8
  | copy, _, b => b
  | or, a, b => a ||| b
  | and, a, b => a &&& b
  | xor, a, b => a ^^^ b
  | add, a, b => a + b
  | subtract, a, b => a - b
  | shiftRight, a, _ => a / 2
  | subtractFrom, a, b => b - a
  | shiftLeft, a, _ => a * 2

def flag? : ArithmeticOp → UInt8 → UInt8 → Option Bool
  | copy, _, _ | or, _, _ | and, _, _ | xor, _, _ => none
  | add, a, b => some (decide (256 ≤ a.toNat + b.toNat))
  | subtract, a, b => some (decide (b.toNat ≤ a.toNat))
  | shiftRight, a, _ => some (decide (a.toNat % 2 = 1))
  | subtractFrom, a, b => some (decide (a.toNat ≤ b.toNat))
  | shiftLeft, a, _ => some (decide (128 ≤ a.toNat))

theorem result_add (a b : UInt8) : (add.result a b).toNat = (a.toNat + b.toNat) % 256 :=
  UInt8.toNat_add a b

theorem result_subtract (a b : UInt8) : (subtract.result a b).toNat = (256 + a.toNat - b.toNat) % 256 := by
  have h := b.toNat_lt
  rw [result, UInt8.toNat_sub]
  omega

theorem result_shiftRight (a b : UInt8) : (shiftRight.result a b).toNat = a.toNat / 2 := by
  simp [result]

theorem result_subtractFrom (a b : UInt8) :
    (subtractFrom.result a b).toNat = (256 + b.toNat - a.toNat) % 256 :=
  result_subtract b a

theorem result_shiftLeft (a b : UInt8) : (shiftLeft.result a b).toNat = a.toNat * 2 % 256 := by
  simp [result]

end Chip8.ArithmeticOp
