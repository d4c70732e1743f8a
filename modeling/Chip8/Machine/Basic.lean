import Chip8.ByteSupply
import Chip8.Keypad
import Chip8.LogRecord
import Chip8.Memory
import Chip8.Screen
import Chip8.Timer

/-!
# Machines

The state of a machine.  The default values of the fields are those after a reset, which keeps nothing but the timing
and the supply of random bytes.
-/

namespace Chip8

/-- Who ticks the timers: each completed step, or the host alone. -/
inductive Timing where
  | perStep
  | external
  deriving DecidableEq, Repr

structure Machine where
  timing : Timing := .perStep
  random : ByteSupply := {}
  memory : Memory := .initial
  /-- The data registers; the last one also takes the flags. -/
  registers : Vector UInt8 16 := .replicate 16 0
  index : UInt16 := 0
  counter : UInt16 := .ofNat Memory.programStart
  /-- Return addresses, the latest one first. -/
  stack : List UInt16 := []
  delay : Timer := {}
  sound : Timer := {}
  screen : Screen := {}
  keypad : Keypad := {}
  /-- Key events that wait for the next step, the earliest one first. -/
  pending : List KeyEvent := []
  deriving DecidableEq

namespace Machine

def registerCount : Nat := 16

/-- The largest number of return addresses. -/
def stackCapacity : Nat := 16

/-- The register of the flags. -/
def flagRegister : Register := 15

/-- Nominal steps in a second. -/
def frequency : Nat := 60

/-- Whole milliseconds between two nominal steps. -/
def interval : Nat := 1000 / frequency

def reset (machine : Machine) : Machine := { timing := machine.timing, random := machine.random }

/-- The machine in its reset state with a program from the program start on. -/
def load (machine : Machine) (program : List UInt8) : Except Fault Machine :=
  if program.length ≤ Memory.programCapacity then
    .ok { machine.reset with memory := Memory.initial.write Memory.programStart program }
  else .error (.programTooLarge program.length Memory.programCapacity)

def tickTimers (machine : Machine) : Machine :=
  { machine with delay := machine.delay.tick, sound := machine.sound.tick }

def enqueue (machine : Machine) (events : List KeyEvent) : Machine :=
  { machine with pending := machine.pending ++ events }

/-- The machine after the pending key events reached the keypad. -/
def applyPending (machine : Machine) : Machine :=
  { machine with keypad := machine.keypad.heedAll machine.pending, pending := [] }

def register (machine : Machine) (x : Register) : UInt8 := machine.registers[x.val]

def setRegister (machine : Machine) (x : Register) (value : UInt8) : Machine :=
  { machine with registers := machine.registers.set x.val value }

end Machine

/-- What an operation leaves behind: the machine, an answer and the records it logged. -/
structure Report (α : Type) where
  machine : Machine
  answer : α
  log : List LogRecord := []

end Chip8
