import Chip8.Advance
import Chip8.Instruction.Arithmetic
import Chip8.Machine.Basic

/-!
# Execution of instructions

`Machine.execute` runs one decoded instruction on a machine whose counter already stands behind it.  An instruction
that fails leaves no effect at all: every check comes before the first write.
-/

namespace Chip8

/-- What a completed step means to the host. -/
inductive Outcome where
  | plain
  | drawn
  /-- The instruction waits for a key press and will run again. -/
  | waiting
  | unsupported (opcode : Opcode)
  deriving DecidableEq, Repr

/-- The effect of an instruction. -/
structure Effect where
  machine : Machine
  advance : Advance := .next
  outcome : Outcome := .plain
  log : List LogRecord := []

/-- The machine once the counter has made its movement. -/
def Effect.settled (effect : Effect) : Machine :=
  { effect.machine with counter := effect.advance.apply effect.machine.counter }

/-- The address as a machine word. -/
def Address.toWord (address : Address) : UInt16 := .ofNat address.val

theorem Address.toNat_toWord (address : Address) : (Address.toWord address).toNat = address.val := by
  have h := address.isLt
  simp only [toWord, UInt16.toNat_ofNat']
  omega

namespace Machine

/-- The digits of a byte, hundreds first. -/
def decimalDigits (value : UInt8) : List UInt8 := [value / 100, value / 10 % 10, value % 10]

/-- The result goes to register `x` and then the flag, if there is one, to the register of the flags. -/
def calculate (machine : Machine) (op : ArithmeticOp) (x y : Register) : Machine :=
  let a := machine.register x
  let b := machine.register y
  let done := machine.setRegister x (op.result a b)
  match op.flag? a b with
  | some flag => done.setRegister flagRegister flag.toUInt8
  | none => done

/-- The sprite of `n` rows at the index is drawn at registers `x` and `y`, which are taken modulo the size of the
screen; the flag tells whether a pixel went off. -/
def drawSprite (machine : Machine) (x y : Register) (n : Nat) : Except Fault Machine :=
  (machine.memory.read machine.index.toNat n).map fun bytes =>
    let column := .ofNat 64 (machine.register x).toNat
    let row := .ofNat 32 (machine.register y).toNat
    let sprite := Screen.sprite column row bytes
    { machine with screen := machine.screen.xor sprite }.setRegister flagRegister
      (machine.screen.overlaps sprite).toUInt8

/-- Asks the keypad for a press, and holds the counter while there is none. -/
def awaitKey (machine : Machine) (x : Register) : Effect :=
  match machine.keypad.takePress with
  | (some key, keypad) =>
    { machine := { machine with keypad }.setRegister x (.ofNat key.val), log := [.keyTaken key] }
  | (none, keypad) => { machine := { machine with keypad }, advance := .hold, outcome := .waiting }

/-- The registers from the first one on take the bytes. -/
def fillRegisters (machine : Machine) (bytes : List UInt8) : Machine :=
  { machine with registers := .ofFn fun k => bytes.getD k.val machine.registers[k.val] }

def execute (machine : Machine) : Instruction → Except Fault Effect
  | .routine nnn => .ok { machine, log := [.routineIgnored nnn] }
  | .clear => .ok { machine := { machine with screen := .blank }, outcome := .drawn }
  | .ret =>
    match machine.stack with
    | [] => .error .stackEmpty
    | address :: rest =>
      .ok { machine := { machine with stack := rest }, advance := .jump address, log := [.returned address] }
  | .jump nnn => .ok { machine, advance := .jump nnn.toWord }
  | .call nnn =>
    if machine.stack.length < stackCapacity then
      .ok { machine := { machine with stack := machine.counter :: machine.stack }
            advance := .jump nnn.toWord
            log := [.called nnn (machine.stack.length + 1)] }
    else .error .stackFull
  | .skipEqual x nn => .ok { machine, advance := .skipIf (machine.register x == nn) }
  | .skipNotEqual x nn => .ok { machine, advance := .skipIf (machine.register x != nn) }
  | .skipSame x y => .ok { machine, advance := .skipIf (machine.register x == machine.register y) }
  | .set x nn => .ok { machine := machine.setRegister x nn }
  | .add x nn => .ok { machine := machine.setRegister x (machine.register x + nn) }
  | .arithmetic op x y => .ok { machine := machine.calculate op x y }
  | .skipNotSame x y => .ok { machine, advance := .skipIf (machine.register x != machine.register y) }
  | .setIndex nnn => .ok { machine := { machine with index := nnn.toWord } }
  | .jumpOffset nnn => .ok { machine, advance := .jump (nnn.toWord + (machine.register 0).toUInt16) }
  | .random x nn =>
    .ok { machine := { machine with random := machine.random.rest }.setRegister x (nn &&& machine.random.peek) }
  | .draw x y n => (machine.drawSprite x y n.val).map fun drawn => { machine := drawn, outcome := .drawn }
  | .skipKeyDown x => .ok { machine, advance := .skipIf (machine.keypad.isPressed (machine.register x).toNat) }
  | .skipKeyUp x => .ok { machine, advance := .skipIf (!machine.keypad.isPressed (machine.register x).toNat) }
  | .readDelay x => .ok { machine := machine.setRegister x machine.delay.value }
  | .awaitKey x => .ok (machine.awaitKey x)
  | .setDelay x => .ok { machine := { machine with delay := { value := machine.register x } } }
  | .setSound x => .ok { machine := { machine with sound := { value := machine.register x } } }
  | .addIndex x =>
    .ok { machine := { machine with index := (machine.index + (machine.register x).toUInt16) % 4096 } }
  | .indexGlyph x =>
    .ok { machine := { machine with index := Font.address (.ofNat 16 (machine.register x).toNat) } }
  | .storeDecimal x =>
    (machine.memory.store machine.index.toNat (decimalDigits (machine.register x))).map fun memory =>
      { machine := { machine with memory } }
  | .storeRegisters x =>
    (machine.memory.store machine.index.toNat (machine.registers.toList.take (x.val + 1))).map fun memory =>
      { machine := { machine with memory } }
  | .loadRegisters x =>
    (machine.memory.read machine.index.toNat (x.val + 1)).map fun bytes => { machine := machine.fillRegisters bytes }

end Machine

end Chip8
