import Chip8.Opcode
import Chip8.Text.Hexadecimal
import Chip8.Text.Term

/-!
# Faults

What can go wrong, and how it is told.  `Fault.reason` says what happened, `Fault.message` puts the area in front, and
`Fault.term` shows the fault as a constructor term.
-/

namespace Chip8

inductive Fault where
  | unsupportedOpcode (opcode : Opcode)
  /-- No whole opcode stands at the pointer, as there are only `size` bytes. -/
  | noOpcode (pointer size : Nat)
  | stackFull
  | stackEmpty
  /-- An access that begins at the address runs past the end of the memory. -/
  | outOfBounds (address : Nat)
  | programTooLarge (size capacity : Nat)
  | invalidKey (key : Nat)
  deriving DecidableEq, Repr

namespace Fault

def reason : Fault → String
  | unsupportedOpcode opcode => "An unsupported opcode was used " ++ Hexadecimal.text 4 opcode.toNat ++ "."
  | noOpcode pointer size =>
    "Pointer location invalid there can not be an opcode at " ++ pointer.repr ++ ", if data len is " ++ size.repr
  | stackFull => "Stack is full!"
  | stackEmpty => "Stack is empty!"
  | outOfBounds address => "Memory access starting at " ++ Hexadecimal.text 4 address ++ " runs out of bounds."
  | programTooLarge size capacity =>
    "The program is " ++ size.repr ++ " bytes long, but only " ++ capacity.repr ++ " bytes fit into memory."
  | invalidKey key => "There is no key with the index " ++ Hexadecimal.text 1 key ++ "."

/-- The parts of the machine that report faults. -/
inductive Area where
  | opcode
  | stack
  | memory
  | input
  deriving DecidableEq, Repr

def area : Fault → Area
  | unsupportedOpcode _ | noOpcode .. => .opcode
  | stackFull | stackEmpty => .stack
  | outOfBounds _ | programTooLarge .. => .memory
  | invalidKey _ => .input

/-- The opening words of a message. -/
def Area.complaint : Area → String
  | opcode => "Invalid opcode state"
  | stack => "Invalid stack state"
  | memory => "Invalid memory access"
  | input => "Invalid input"

def Area.name : Area → String
  | opcode => "Opcode"
  | stack => "Stack"
  | memory => "Memory"
  | input => "Input"

def message (fault : Fault) : String := fault.area.complaint ++ " '" ++ fault.reason ++ "'."

/-- The fault within its area. -/
def detail : Fault → String
  | unsupportedOpcode opcode => Term.applied "InvalidOpcode" opcode.toNat.repr
  | noOpcode pointer size => Term.fields "MemoryInvalid" [("pointer", pointer.repr), ("len", size.repr)]
  | stackFull => "Full"
  | stackEmpty => "Empty"
  | outOfBounds address => Term.fields "OutOfBounds" [("address", address.repr)]
  | programTooLarge size capacity => Term.fields "ProgramTooLarge" [("len", size.repr), ("max", capacity.repr)]
  | invalidKey key => Term.applied "InvalidKey" key.repr

def term (fault : Fault) : String := Term.applied fault.area.name fault.detail

end Fault

end Chip8
