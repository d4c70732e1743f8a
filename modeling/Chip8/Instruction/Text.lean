import Chip8.Instruction.Basic
import Chip8.Text.Term

/-!
# Names of instructions

An instruction is shown as its name with its operands in decimal, as in `Draw { x: 1, y: 2, n: 3 }`.
-/

namespace Chip8

def ArithmeticOp.name : ArithmeticOp → String
  | copy => "Assign"
  | or => "Or"
  | and => "And"
  | xor => "Xor"
  | add => "AddCarry"
  | subtract => "SubBorrow"
  | shiftRight => "ShiftRight"
  | subtractFrom => "SubReverse"
  | shiftLeft => "ShiftLeft"

namespace Instruction

namespace Operand

def nnn (value : Address) : String × String := ("nnn", value.val.repr)

def x (value : Register) : String × String := ("x", value.val.repr)

def y (value : Register) : String × String := ("y", value.val.repr)

def n (value : Fin 16) : String × String := ("n", value.val.repr)

def nn (value : UInt8) : String × String := ("nn", value.toNat.repr)

def ops (value : ArithmeticOp) : String × String := ("ops", value.name)

end Operand

def text : Instruction → String
  | routine nnn => Term.fields "System" [Operand.nnn nnn]
  | clear => Term.fields "Clear" []
  | ret => Term.fields "Return" []
  | jump nnn => Term.fields "Jump" [Operand.nnn nnn]
  | call nnn => Term.fields "Call" [Operand.nnn nnn]
  | skipEqual x nn => Term.fields "SkipEqual" [Operand.x x, Operand.nn nn]
  | skipNotEqual x nn => Term.fields "SkipNotEqual" [Operand.x x, Operand.nn nn]
  | skipSame x y => Term.fields "SkipRegistersEqual" [Operand.x x, Operand.y y]
  | set x nn => Term.fields "Set" [Operand.x x, Operand.nn nn]
  | add x nn => Term.fields "Add" [Operand.x x, Operand.nn nn]
  | arithmetic op x y => Term.fields "Arithmetic" [Operand.ops op, Operand.x x, Operand.y y]
  | skipNotSame x y => Term.fields "SkipRegistersNotEqual" [Operand.x x, Operand.y y]
  | setIndex nnn => Term.fields "SetIndex" [Operand.nnn nnn]
  | jumpOffset nnn => Term.fields "JumpOffset" [Operand.nnn nnn]
  | random x nn => Term.fields "Random" [Operand.x x, Operand.nn nn]
  | draw x y n => Term.fields "Draw" [Operand.x x, Operand.y y, Operand.n n]
  | skipKeyDown x => Term.fields "SkipKeyPressed" [Operand.x x]
  | skipKeyUp x => Term.fields "SkipKeyNotPressed" [Operand.x x]
  | readDelay x => Term.fields "GetDelayTimer" [Operand.x x]
  | awaitKey x => Term.fields "AwaitKeyPress" [Operand.x x]
  | setDelay x => Term.fields "SetDelayTimer" [Operand.x x]
  | setSound x => Term.fields "SetSoundTimer" [Operand.x x]
  | addIndex x => Term.fields "AddIndex" [Operand.x x]
  | indexGlyph x => Term.fields "SetIndexToSprite" [Operand.x x]
  | storeDecimal x => Term.fields "StoreBcd" [Operand.x x]
  | storeRegisters x => Term.fields "StoreRegisters" [Operand.x x]
  | loadRegisters x => Term.fields "LoadRegisters" [Operand.x x]

end Instruction

end Chip8
