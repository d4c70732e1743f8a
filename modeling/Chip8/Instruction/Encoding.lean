import Chip8.Instruction.Basic

/-!
# Encoding of instructions

`Instruction.encode` writes an instruction as an opcode and `Instruction.decode?` reads one.  The family selects the
instruction, within the families `8`, `E` and `F` together with the last digits.  The two routines `0E0` and `0EE` do
not exist: their opcodes are `clear` and `ret`.
-/

namespace Chip8

namespace ArithmeticOp

/-- The last digit of the opcodes of an operation. -/
def code : ArithmeticOp → Nat
  | copy => 0x0
  | or => 0x1
  | and => 0x2
  | xor => 0x3
  | add => 0x4
  | subtract => 0x5
  | shiftRight => 0x6
  | subtractFrom => 0x7
  | shiftLeft => 0xE

def ofCode? : Nat → Option ArithmeticOp
  | 0x0 => some copy
  | 0x1 => some or
  | 0x2 => some and
  | 0x3 => some xor
  | 0x4 => some add
  | 0x5 => some subtract
  | 0x6 => some shiftRight
  | 0x7 => some subtractFrom
  | 0xE => some shiftLeft
  | _ => none

@[simp] theorem ofCode?_code (op : ArithmeticOp) : ofCode? op.code = some op := by
  cases op <;> rfl

theorem code_of_ofCode? {code : Nat} {op : ArithmeticOp} (h : ofCode? code = some op) : op.code = code := by
  unfold ofCode? at h
  split at h <;> simp_all <;> subst h <;> rfl

end ArithmeticOp

namespace Instruction

/-- The instruction that an opcode stands for, if there is one. -/
def decode? (opcode : Opcode) : Option Instruction :=
  match opcode.family.val with
  | 0x0 =>
    if opcode.nnn = 0x0E0 then some clear
    else if opcode.nnn = 0x0EE then some ret
    else some (routine opcode.nnn)
  | 0x1 => some (jump opcode.nnn)
  | 0x2 => some (call opcode.nnn)
  | 0x3 => some (skipEqual opcode.x opcode.nn)
  | 0x4 => some (skipNotEqual opcode.x opcode.nn)
  | 0x5 => if opcode.n = 0 then some (skipSame opcode.x opcode.y) else none
  | 0x6 => some (set opcode.x opcode.nn)
  | 0x7 => some (add opcode.x opcode.nn)
  | 0x8 => (ArithmeticOp.ofCode? opcode.n.val).map (arithmetic · opcode.x opcode.y)
  | 0x9 => if opcode.n = 0 then some (skipNotSame opcode.x opcode.y) else none
  | 0xA => some (setIndex opcode.nnn)
  | 0xB => some (jumpOffset opcode.nnn)
  | 0xC => some (random opcode.x opcode.nn)
  | 0xD => some (draw opcode.x opcode.y opcode.n)
  | 0xE =>
    match opcode.nn.toNat with
    | 0x9E => some (skipKeyDown opcode.x)
    | 0xA1 => some (skipKeyUp opcode.x)
    | _ => none
  | 0xF =>
    match opcode.nn.toNat with
    | 0x07 => some (readDelay opcode.x)
    | 0x0A => some (awaitKey opcode.x)
    | 0x15 => some (setDelay opcode.x)
    | 0x18 => some (setSound opcode.x)
    | 0x1E => some (addIndex opcode.x)
    | 0x29 => some (indexGlyph opcode.x)
    | 0x33 => some (storeDecimal opcode.x)
    | 0x55 => some (storeRegisters opcode.x)
    | 0x65 => some (loadRegisters opcode.x)
    | _ => none
  | _ => none

/-- The opcode of an instruction. -/
def encode : Instruction → Opcode
  | routine nnn => Opcode.ofAddress 0x0 nnn
  | clear => 0x00E0
  | ret => 0x00EE
  | jump nnn => Opcode.ofAddress 0x1 nnn
  | call nnn => Opcode.ofAddress 0x2 nnn
  | skipEqual x nn => Opcode.ofByte 0x3 x nn.toNat
  | skipNotEqual x nn => Opcode.ofByte 0x4 x nn.toNat
  | skipSame x y => Opcode.ofPair 0x5 x y 0
  | set x nn => Opcode.ofByte 0x6 x nn.toNat
  | add x nn => Opcode.ofByte 0x7 x nn.toNat
  | arithmetic op x y => Opcode.ofPair 0x8 x y op.code
  | skipNotSame x y => Opcode.ofPair 0x9 x y 0
  | setIndex nnn => Opcode.ofAddress 0xA nnn
  | jumpOffset nnn => Opcode.ofAddress 0xB nnn
  | random x nn => Opcode.ofByte 0xC x nn.toNat
  | draw x y n => Opcode.ofPair 0xD x y n.val
  | skipKeyDown x => Opcode.ofByte 0xE x 0x9E
  | skipKeyUp x => Opcode.ofByte 0xE x 0xA1
  | readDelay x => Opcode.ofByte 0xF x 0x07
  | awaitKey x => Opcode.ofByte 0xF x 0x0A
  | setDelay x => Opcode.ofByte 0xF x 0x15
  | setSound x => Opcode.ofByte 0xF x 0x18
  | addIndex x => Opcode.ofByte 0xF x 0x1E
  | indexGlyph x => Opcode.ofByte 0xF x 0x29
  | storeDecimal x => Opcode.ofByte 0xF x 0x33
  | storeRegisters x => Opcode.ofByte 0xF x 0x55
  | loadRegisters x => Opcode.ofByte 0xF x 0x65

/-- The bytes of a program, instruction after instruction. -/
def assemble (program : List Instruction) : List UInt8 := program.flatMap fun instruction => instruction.encode.bytes

end Instruction

end Chip8
