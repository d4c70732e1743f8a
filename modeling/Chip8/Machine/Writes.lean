import Chip8.Machine.Command

/-!
# Commands write by write

The commands as sequences of single writes to one machine.  A failure ends the sequence where it occurs and keeps the
writes before it: the counter has moved before the instruction runs, and a return has left the stack before it jumps.
Only a step takes something back, which is the movement of its counter.

An instruction that cannot fail is one write here; the others make their checks and their writes in the order of
`Writes.execute`.
-/

namespace Chip8

/-- Reads and writes of a machine.  A failure keeps the writes that came before it. -/
abbrev Writes := EStateM Fault Machine

namespace Writes

/-- A reading that can fail and writes nothing. -/
def check {α : Type} (reading : Machine → Except Fault α) : Writes α := do
  match reading (← get) with
  | .ok value => return value
  | .error fault => throw fault

def push (address : UInt16) : Writes Unit := do
  if (← get).stack.length < Machine.stackCapacity then
    modify fun machine => { machine with stack := address :: machine.stack }
  else throw .stackFull

def pop : Writes UInt16 := do
  match (← get).stack with
  | [] => throw .stackEmpty
  | address :: rest =>
    modify fun machine => { machine with stack := rest }
    return address

/-- The flag is reset before the first pixel turns, and set after the last. -/
def draw (x y : Register) (n : Nat) : Writes Unit := do
  let bytes ← check fun machine => machine.memory.read machine.index.toNat n
  let machine ← get
  let column := .ofNat 64 (machine.register x).toNat
  let row := .ofNat 32 (machine.register y).toNat
  let sprite := Screen.sprite column row bytes
  modify fun machine => machine.setRegister Machine.flagRegister 0
  modify fun machine => { machine with screen := machine.screen.xor sprite }
  modify fun after => after.setRegister Machine.flagRegister (machine.screen.overlaps sprite).toUInt8

/-- All the writes of an instruction at once. -/
def atOnce (instruction : Instruction) : Writes (Advance × Outcome) := do
  let effect ← check fun machine => machine.execute instruction
  set effect.machine
  return (effect.advance, effect.outcome)

def execute : Instruction → Writes (Advance × Outcome)
  | .ret => do
    let address ← pop
    return (.jump address, .plain)
  | .call nnn => do
    push (← get).counter
    return (.jump nnn.toWord, .plain)
  | .draw x y n => do
    draw x y n.val
    return (.next, .drawn)
  | .storeDecimal x => do
    let memory ← check fun machine =>
      machine.memory.store machine.index.toNat (Machine.decimalDigits (machine.register x))
    modify fun machine => { machine with memory }
    return (.next, .plain)
  | .storeRegisters x => do
    let memory ← check fun machine =>
      machine.memory.store machine.index.toNat (machine.registers.toList.take (x.val + 1))
    modify fun machine => { machine with memory }
    return (.next, .plain)
  | .loadRegisters x => do
    let bytes ← check fun machine => machine.memory.read machine.index.toNat (x.val + 1)
    modify fun machine => machine.fillRegisters bytes
    return (.next, .plain)
  | instruction => atOnce instruction

def move (advance : Advance) : Writes Unit :=
  modify fun machine => { machine with counter := advance.apply machine.counter }

def cycle : Writes Outcome := do
  let opcode ← check fun machine => Opcode.read machine.memory.toArray machine.counter.toNat
  move .skip
  match Instruction.decode? opcode with
  | none => return .unsupported opcode
  | some instruction =>
    let (advance, outcome) ← execute instruction
    move advance
    return outcome

def step : Writes Outcome := do
  modify Machine.applyPending
  let start := (← get).counter
  try
    let outcome ← cycle
    modify Machine.elapse
    return outcome
  catch fault =>
    modify fun machine => { machine with counter := start }
    throw fault

def tick (events : List KeyEvent) : Writes Outcome := do
  modify fun machine => { machine with keypad := machine.keypad.heedAll events }
  step

def setKey (event : KeyEvent) : Writes Unit := do
  let key ← check fun _ =>
    match event.target? with
    | some key => .ok key
    | none => .error event.fault
  modify fun machine => { machine with keypad := machine.keypad.set key event.pressed }

def load (program : List UInt8) : Writes Unit := do
  if Memory.programCapacity < program.length then
    throw (.programTooLarge program.length Memory.programCapacity)
  modify Machine.reset
  modify fun machine => { machine with memory := machine.memory.write Memory.programStart program }

/-- A command that cannot fail is one write here. -/
def perform : Command → Writes Reply
  | .step => return .stepped (← step) none
  | .tick events => do
    let outcome ← tick events
    let machine ← get
    return .stepped outcome (if outcome = .drawn then some machine.screen else none)
  | .setKey event => do
    setKey event
    return .done
  | .load program => do
    load program
    return .done
  | .loadRom rom => do
    load rom.bytes
    return .done
  | command => do
    modify fun machine => (machine.perform command).machine
    return .done

end Writes

end Chip8
