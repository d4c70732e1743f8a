import Chip8.Opcode

/-!
# The instruction set

`Instruction` lists the thirty-five instructions; the operations on two registers share one constructor and are told
apart by `ArithmeticOp`.
-/

namespace Chip8

/-- The operations that combine two registers. -/
inductive ArithmeticOp where
  | copy
  | or
  | and
  | xor
  | add
  | subtract
  | shiftRight
  /-- The second register minus the first. -/
  | subtractFrom
  | shiftLeft
  deriving DecidableEq, Repr

inductive Instruction where
  /-- A routine in the machine code of the host, which is passed over. -/
  | routine (nnn : Address)
  | clear
  | ret
  | jump (nnn : Address)
  | call (nnn : Address)
  | skipEqual (x : Register) (nn : UInt8)
  | skipNotEqual (x : Register) (nn : UInt8)
  | skipSame (x y : Register)
  | set (x : Register) (nn : UInt8)
  | add (x : Register) (nn : UInt8)
  | arithmetic (op : ArithmeticOp) (x y : Register)
  | skipNotSame (x y : Register)
  | setIndex (nnn : Address)
  /-- A jump to an address plus register 0. -/
  | jumpOffset (nnn : Address)
  | random (x : Register) (nn : UInt8)
  | draw (x y : Register) (n : Fin 16)
  | skipKeyDown (x : Register)
  | skipKeyUp (x : Register)
  | readDelay (x : Register)
  | awaitKey (x : Register)
  | setDelay (x : Register)
  | setSound (x : Register)
  | addIndex (x : Register)
  /-- The index moves to the glyph of a hexadecimal digit. -/
  | indexGlyph (x : Register)
  | storeDecimal (x : Register)
  | storeRegisters (x : Register)
  | loadRegisters (x : Register)
  deriving DecidableEq, Repr

end Chip8
