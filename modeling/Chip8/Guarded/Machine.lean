import Chip8.Guarded.Keypad
import Chip8.Guarded.Screen
import Chip8.Machine.Command

/-!
# Commands with their checks

Everything that a host can do to a machine, with the checks of `Guarded` at each access and at each operation that is
not defined for all operands.  Register numbers are cut out of the opcode and looked up only where an instruction
uses them.
-/

namespace Chip8.Guarded

/-! ### Registers and memory -/

def register (machine : Machine) (x : Nat) : Guarded UInt8 := do
  let x ← index x 16
  return machine.register x

def setRegister (machine : Machine) (x : Nat) (value : UInt8) : Guarded Machine := do
  let x ← index x 16
  return machine.setRegister x value

/-- Uses the cells from `start` on, as many as `length`, unless they run past the end of the memory. -/
def access {α : Type} (start length : Nat) (use : Nat → Nat → Guarded α) : Guarded (Except Fault α) := do
  let stop ← add start length
  if Memory.size < stop then return .error (.outOfBounds start)
  else return .ok (← use start stop)

/-! ### Instructions -/

/-- The result and the flag of an operation. -/
def compute (op : ArithmeticOp) (a b : UInt8) : Guarded (UInt8 × Option UInt8) :=
  match op with
  | .shiftRight => do
    let result ← shiftRight a.toBitVec 1
    return (⟨result⟩, some (a &&& 1))
  | .shiftLeft => do
    let result ← shiftLeft a.toBitVec 1
    let flag ← shiftRight a.toBitVec 7
    return (⟨result⟩, some ⟨flag⟩)
  | op => return (op.result a b, (op.flag? a b).map Bool.toUInt8)

def calculate (machine : Machine) (op : ArithmeticOp) (x y : Nat) : Guarded Machine := do
  let (result, flag?) ← compute op (← register machine x) (← register machine y)
  let done ← setRegister machine x result
  match flag? with
  | some flag => setRegister done Machine.flagRegister.val flag
  | none => return done

def drawSprite (machine : Machine) (x y n : Nat) : Guarded (Except Fault Machine) :=
  access machine.index.toNat n fun start stop => do
    let column ← mod (← register machine x).toNat Screen.width
    let row ← mod (← register machine y).toNat Screen.height
    let cleared ← setRegister machine Machine.flagRegister.val 0
    let bytes ← slice cleared.memory.toList start stop
    let drawn ← drawRows column row bytes 0 { screen := cleared.screen }
    setRegister { cleared with screen := drawn.screen } Machine.flagRegister.val drawn.collided.toUInt8

def awaitKey (machine : Machine) (x : Nat) : Guarded Effect :=
  match machine.keypad.takePress with
  | (some key, keypad) => do
    let done ← setRegister { machine with keypad } x (.ofNat key.val)
    return { machine := done, log := [.keyTaken key] }
  | (none, keypad) => return { machine := { machine with keypad }, advance := .hold, outcome := .waiting }

/-- Where the glyph of the lowest digit of a byte stands. -/
def glyphAddress (value : UInt8) : Guarded Nat := do
  let offset ← mul Font.glyphSize (value &&& 0xF).toNat
  add Font.location offset

/-- The digits of a byte, hundreds first. -/
def decimalDigits (value : Nat) : Guarded (List UInt8) := do
  let hundreds ← div value 100
  let tens ← mod (← div value 10) 10
  let ones ← mod value 10
  return [.ofNat hundreds, .ofNat tens, .ofNat ones]

def storeDecimal (machine : Machine) (x : Nat) : Guarded (Except Fault Effect) :=
  access machine.index.toNat 3 fun start stop => do
    let digits ← decimalDigits (← register machine x).toNat
    let memory ← copy machine.memory start stop digits
    return { machine := { machine with memory } }

def storeRegisters (machine : Machine) (x : Nat) : Guarded (Except Fault Effect) := do
  let count ← add x 1
  access machine.index.toNat count fun start stop => do
    let bytes ← slice machine.registers.toList 0 count
    let memory ← copy machine.memory start stop bytes
    return { machine := { machine with memory } }

def loadRegisters (machine : Machine) (x : Nat) : Guarded (Except Fault Effect) := do
  let count ← add x 1
  access machine.index.toNat count fun start stop => do
    let target ← slice machine.registers.toList 0 count
    let bytes ← slice machine.memory.toList start stop
    if target.length = bytes.length then return { machine := machine.fillRegisters bytes }
    else throw (.lengths target.length bytes.length)

/-- Runs an instruction on the registers `x` and `y`.  Those that look up nothing have nothing to check. -/
def execute (machine : Machine) (x y : Nat) : Instruction → Guarded (Except Fault Effect)
  | .skipEqual _ nn => do return .ok { machine, advance := .skipIf ((← register machine x) == nn) }
  | .skipNotEqual _ nn => do return .ok { machine, advance := .skipIf ((← register machine x) != nn) }
  | .skipSame _ _ => do
    return .ok { machine, advance := .skipIf ((← register machine x) == (← register machine y)) }
  | .skipNotSame _ _ => do
    return .ok { machine, advance := .skipIf ((← register machine x) != (← register machine y)) }
  | .set _ nn => do return .ok { machine := ← setRegister machine x nn }
  | .add _ nn => do return .ok { machine := ← setRegister machine x ((← register machine x) + nn) }
  | .arithmetic op _ _ => do return .ok { machine := ← calculate machine op x y }
  | .jumpOffset nnn => do
    return .ok { machine, advance := .jump (nnn.toWord + (← register machine 0).toUInt16) }
  | .random _ nn => do
    let bytes : Vector UInt8 1 := #v[machine.random.peek]
    let byte := bytes.get (← index 0 1)
    return .ok { machine := ← setRegister { machine with random := machine.random.rest } x (nn &&& byte) }
  | .draw _ _ n => do
    return (← drawSprite machine x y n.val).map fun drawn => { machine := drawn, outcome := .drawn }
  | .skipKeyDown _ => do
    let down ← isPressed machine.keypad (← register machine x).toNat
    return .ok { machine, advance := .skipIf down }
  | .skipKeyUp _ => do
    let down ← isPressed machine.keypad (← register machine x).toNat
    return .ok { machine, advance := .skipIf !down }
  | .readDelay _ => do return .ok { machine := ← setRegister machine x machine.delay.value }
  | .awaitKey _ => do return .ok (← awaitKey machine x)
  | .setDelay _ => do return .ok { machine := { machine with delay := { value := ← register machine x } } }
  | .setSound _ => do return .ok { machine := { machine with sound := { value := ← register machine x } } }
  | .addIndex _ => do
    let index := (machine.index + (← register machine x).toUInt16) % 4096
    return .ok { machine := { machine with index } }
  | .indexGlyph _ => do
    let address ← glyphAddress (← register machine x)
    return .ok { machine := { machine with index := .ofNat address } }
  | .storeDecimal _ => storeDecimal machine x
  | .storeRegisters _ => storeRegisters machine x
  | .loadRegisters _ => loadRegisters machine x
  | instruction => return machine.execute instruction

/-! ### Steps -/

def fetch (machine : Machine) : Guarded (Except Fault Opcode) := do
  let pointer := machine.counter.toNat
  if (← add pointer 1) < Memory.size then
    let high := machine.memory.get (← index pointer 4096)
    let low := machine.memory.get (← index (← add pointer 1) 4096)
    return .ok (.ofBytes high low)
  else return .error (.noOpcode pointer Memory.size)

/-- The family of an opcode and the numbers of its two registers. -/
def digits (opcode : Opcode) : Guarded (Nat × Nat × Nat) := do
  let family ← shiftRight (opcode &&& 0xF000).toBitVec 12
  let x ← shiftRight (opcode &&& 0x0FFF &&& 0xFF00).toBitVec 8
  let y ← shiftRight (opcode &&& 0x00FF &&& 0xFFF0).toBitVec 4
  return (family.toNat, x.toNat, y.toNat)

def dispatch (machine : Machine) (opcode : Opcode) : Guarded (Report (Except Fault Outcome)) := do
  let fetched := { machine with counter := Advance.skip.apply machine.counter }
  let (_, x, y) ← digits opcode
  match Instruction.decode? opcode with
  | none =>
    return { machine := fetched
             answer := .ok (.unsupported opcode)
             log := [.unsupported opcode (fetched.counter - 2)] }
  | some instruction =>
    match ← execute fetched x y instruction with
    | .error fault => return { machine, answer := .error fault, log := [.executing instruction] }
    | .ok effect =>
      return { machine := effect.settled
               answer := .ok effect.outcome
               log := .executing instruction :: effect.log }

def cycle (machine : Machine) : Guarded (Report (Except Fault Outcome)) := do
  match ← fetch machine with
  | .error fault => return { machine, answer := .error fault }
  | .ok opcode =>
    let report ← dispatch machine opcode
    return { report with log := .fetched opcode machine.counter :: report.log }

def step (machine : Machine) : Guarded (Report (Except Fault Outcome)) := do
  let keypad ← heedAll machine.pending machine.keypad
  let report ← cycle { machine with keypad, pending := [] }
  return { machine := if report.answer.isOk then report.machine.elapse else report.machine
           answer := report.answer
           log := Machine.dropped machine.pending ++ report.log }

def tick (machine : Machine) (events : List KeyEvent) : Guarded (Report (Except Fault Outcome)) := do
  let keypad ← heedAll events machine.keypad
  let report ← step { machine with keypad }
  return { report with log := Machine.dropped events ++ report.log }

/-! ### Commands -/

/-- The glyphs are copied into a memory of zeros. -/
def reset (machine : Machine) : Guarded Machine := do
  let stop ← add Font.location Font.bytes.length
  let memory ← copy (.replicate 4096 0) Font.location stop Font.bytes
  return { machine.reset with memory }

def create (timing : Timing) (random : ByteSupply) : Guarded (Report Unit) := do
  let machine ← reset { timing, random }
  return { machine, answer := (), log := [.reset] }

def load (machine : Machine) (program : List UInt8) : Guarded (Report Reply) := do
  if Memory.programCapacity < program.length then
    return { machine, answer := .failed (.programTooLarge program.length Memory.programCapacity) }
  else
    let fresh ← reset machine
    let stop ← add Memory.programStart program.length
    let memory ← copy fresh.memory Memory.programStart stop program
    return { machine := { fresh with memory }, answer := .done, log := [.reset, .loaded program.length] }

def perform (machine : Machine) : Command → Guarded (Report Reply)
  | .step => do return (← step machine).toReply none
  | .tick events => do
    let report ← tick machine events
    return report.toReply report.shown
  | .setKey event => do
    match ← setKey machine.keypad event with
    | .ok keypad => return { machine := { machine with keypad }, answer := .done }
    | .error fault => return { machine, answer := .failed fault }
  | .setKeys down => do
    let keypad ← setAll machine.keypad down
    return { machine := { machine with keypad }, answer := .done }
  | .load program => load machine program
  | .loadRom rom => do
    let report ← load machine rom.bytes
    return { report with log := .loadingRom rom.name :: report.log }
  | .reset => do return { machine := ← reset machine, answer := .done, log := [.reset] }
  | command => return machine.perform command

end Chip8.Guarded
