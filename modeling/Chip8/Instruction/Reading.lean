import Chip8.Fault
import Chip8.Instruction.Encoding

/-!
# Reading instructions

Reading with the fault that explains a failure: an opcode needs two bytes at its place, an instruction needs an opcode
of the instruction set.
-/

namespace Chip8

/-- The opcode at `pointer`, the high byte first. -/
def Opcode.read (bytes : Array UInt8) (pointer : Nat) : Except Fault Opcode :=
  match Opcode.at? bytes pointer with
  | some opcode => .ok opcode
  | none => .error (.noOpcode pointer bytes.size)

def Instruction.read (opcode : Opcode) : Except Fault Instruction :=
  match Instruction.decode? opcode with
  | some instruction => .ok instruction
  | none => .error (.unsupportedOpcode opcode)

theorem Opcode.read_eq_ok_iff {bytes : Array UInt8} {pointer : Nat} {opcode : Opcode} :
    Opcode.read bytes pointer = .ok opcode ↔ Opcode.at? bytes pointer = some opcode := by
  unfold Opcode.read
  split <;> simp [*]

theorem Opcode.read_eq_error_iff {bytes : Array UInt8} {pointer : Nat} {fault : Fault} :
    Opcode.read bytes pointer = .error fault ↔
      bytes.size ≤ pointer + 1 ∧ fault = .noOpcode pointer bytes.size := by
  by_cases h : pointer + 1 < bytes.size
  · simp only [Opcode.read, Opcode.at?, dif_pos h, reduceCtorEq, false_iff]
    omega
  · simp only [Opcode.read, Opcode.at?, dif_neg h, Except.error.injEq, eq_comm]
    exact ⟨fun e => ⟨by omega, e⟩, fun e => e.2⟩

end Chip8
