import Chip8.Instruction.Text
import Chip8.Keypad

/-!
# Log records

A record is kept as what it tells of; `LogRecord.line` is its text, the level in front.
-/

namespace Chip8

inductive LogRecord where
  | reset
  | loadingRom (name : String)
  | loaded (size : Nat)
  /-- An event of the host whose key does not exist. -/
  | keyDropped (event : KeyEvent)
  | fetched (opcode : Opcode) (address : UInt16)
  | unsupported (opcode : Opcode) (address : UInt16)
  | executing (instruction : Instruction)
  | routineIgnored (nnn : Address)
  | returned (address : UInt16)
  /-- A call, with the number of return addresses that are kept since. -/
  | called (nnn : Address) (depth : Nat)
  /-- The press that an instruction waited for. -/
  | keyTaken (key : Key)
  deriving DecidableEq, Repr

namespace LogRecord

inductive Level where
  | trace
  | debug
  | warn
  deriving DecidableEq, Repr

def Level.name : Level → String
  | trace => "TRACE"
  | debug => "DEBUG"
  | warn => "WARN"

def level : LogRecord → Level
  | fetched .. | executing _ | routineIgnored _ => .trace
  | reset | loadingRom _ | loaded _ | returned _ | called .. | keyTaken _ => .debug
  | keyDropped _ | unsupported .. => .warn

def message : LogRecord → String
  | reset => "resetting machine"
  | loadingRom name => "loading rom " ++ name
  | loaded size => "loaded program with " ++ size.repr ++ " bytes"
  | keyDropped event => "dropping key event " ++ event.term ++ ": " ++ event.fault.reason
  | fetched opcode address =>
    "opcode " ++ Hexadecimal.text 4 opcode.toNat ++ " at " ++ Hexadecimal.text 4 address.toNat
  | unsupported opcode address =>
    "An unsupported opcode was used " ++ Hexadecimal.text 4 opcode.toNat ++ " at "
      ++ Hexadecimal.text 4 address.toNat
  | executing instruction => "executing " ++ instruction.text
  | routineIgnored nnn => "ignoring machine code routine at " ++ Hexadecimal.text 3 nnn.val
  | returned address => "return to " ++ Hexadecimal.text 4 address.toNat
  | called nnn depth => "call " ++ Hexadecimal.text 4 nnn.val ++ ", depth " ++ depth.repr
  | keyTaken key => "key " ++ Hexadecimal.text 1 key.val ++ " pressed while waiting"

def line (entry : LogRecord) : String := entry.level.name ++ " " ++ entry.message

end LogRecord

end Chip8
