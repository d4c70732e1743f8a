import Chip8.Instruction.Reading
import Chip8.Proofs.Encoding
import Chip8.Proofs.Loading

/-!
# Assembled programs

The bytes of a program come in pairs, one pair for each instruction (`Instruction.getD_assemble_high` and
`Instruction.getD_assemble_low`), and loading puts them at the program start in this order.  So the opcode of the
`k`-th pair of a loaded program is read as its `k`-th instruction (`Machine.read_load_assemble`), wherever in the
program that is.
-/

namespace Chip8

/-- An opcode in memory needs its second byte there too. -/
theorem Opcode.read_memory {memory : Memory} {a : Nat} (h : a + 1 < 4096) :
    Opcode.read memory.toArray a = .ok (Opcode.ofBytes memory[a] memory[a + 1]) := by
  rw [Opcode.read_eq_ok_iff, Opcode.at?_eq_some (by simpa using h)]
  rfl

theorem Opcode.read_succeeds_iff {bytes : Array UInt8} {pointer : Nat} :
    (∃ opcode, Opcode.read bytes pointer = .ok opcode) ↔ pointer + 1 < bytes.size := by
  simp only [Opcode.read_eq_ok_iff, ← Option.isSome_iff_exists, Opcode.isSome_at?_iff]

namespace Instruction

/-- Two routines do not exist, as their opcodes are those of other instructions. -/
def WellFormed (instruction : Instruction) : Prop := instruction ≠ routine 0x0E0 ∧ instruction ≠ routine 0x0EE

theorem wellFormed_of_decode? {opcode : Opcode} {instruction : Instruction}
    (h : decode? opcode = some instruction) : instruction.WellFormed := by
  have he := encode_of_decode? h
  constructor
  · rintro rfl
    subst he
    cases h
  · rintro rfl
    subst he
    cases h

theorem read_encode {instruction : Instruction} (h : instruction.WellFormed) :
    Instruction.read instruction.encode = .ok instruction := by
  rw [Instruction.read, decode?_encode h.1 h.2]

/-! ### The bytes of a program -/

theorem assemble_cons (instruction : Instruction) (rest : List Instruction) :
    assemble (instruction :: rest) = instruction.encode.highByte :: instruction.encode.lowByte :: assemble rest := rfl

theorem length_assemble (program : List Instruction) : (assemble program).length = 2 * program.length := by
  induction program with
  | nil => rfl
  | cons instruction rest ih =>
    rw [assemble_cons, List.length_cons, List.length_cons, ih, List.length_cons]
    omega

theorem getD_assemble_high {program : List Instruction} {k : Nat} {instruction : Instruction}
    (h : program[k]? = some instruction) (byte : UInt8) :
    (assemble program).getD (2 * k) byte = instruction.encode.highByte := by
  induction program generalizing k with
  | nil => cases h
  | cons first rest ih =>
    cases k with
    | zero =>
      cases h
      rfl
    | succ k =>
      rw [assemble_cons, Nat.mul_succ, List.getD_cons_succ, List.getD_cons_succ]
      exact ih h

theorem getD_assemble_low {program : List Instruction} {k : Nat} {instruction : Instruction}
    (h : program[k]? = some instruction) (byte : UInt8) :
    (assemble program).getD (2 * k + 1) byte = instruction.encode.lowByte := by
  induction program generalizing k with
  | nil => cases h
  | cons first rest ih =>
    cases k with
    | zero =>
      cases h
      rfl
    | succ k =>
      rw [assemble_cons, Nat.mul_succ, List.getD_cons_succ, List.getD_cons_succ]
      exact ih h

end Instruction

namespace Machine

/-! ### Loaded programs -/

theorem memory_perform_load {program : List UInt8} (h : program.length ≤ Memory.programCapacity) (machine : Machine) :
    (machine.perform (.load program)).machine.memory = Memory.initial.write Memory.programStart program := by
  rw [machine_perform_load h]

/-- The opcode of the `k`-th pair of bytes reads as the `k`-th instruction. -/
theorem read_load_assemble {program : List Instruction} (hl : program.length ≤ 1792) {k : Nat}
    {instruction : Instruction} (h : program[k]? = some instruction) (machine : Machine) :
    Opcode.read (machine.perform (.load (Instruction.assemble program))).machine.memory.toArray (0x200 + 2 * k) =
      .ok instruction.encode := by
  have hk := (List.getElem?_eq_some_iff.1 h).1
  have hfits : (Instruction.assemble program).length ≤ Memory.programCapacity := by
    rw [Instruction.length_assemble]
    exact Nat.mul_le_mul_left 2 hl
  have hhigh := Memory.getElem_write_add Memory.initial 0x200 (Instruction.assemble program)
    (show 0x200 + 2 * k < 4096 by omega)
  have hlow := Memory.getElem_write_add Memory.initial 0x200 (Instruction.assemble program)
    (show 0x200 + (2 * k + 1) < 4096 by omega)
  rw [Instruction.getD_assemble_high h] at hhigh
  rw [Instruction.getD_assemble_low h] at hlow
  rw [memory_perform_load hfits, Opcode.read_memory (by omega)]
  exact congrArg Except.ok ((congrArg₂ Opcode.ofBytes hhigh hlow).trans (Opcode.ofBytes_highByte_lowByte _))

/-- Encoding and decoding are inverse to one another between the instructions that exist and the opcodes that stand
for one, whose digits are what masks and shifts cut out of them.  A program of such instructions that fits can be
loaded, and then its `k`-th instruction is read at the `k`-th pair of bytes.  Reading succeeds exactly where two bytes
stand. -/
theorem assemble_round_trip :
    (∀ instruction : Instruction, instruction.WellFormed →
        Instruction.decode? instruction.encode = some instruction) ∧
      (∀ opcode instruction, Instruction.decode? opcode = some instruction →
        instruction.WellFormed ∧ instruction.encode = opcode) ∧
      (∀ opcode other instruction, Instruction.decode? opcode = some instruction →
        Instruction.decode? other = some instruction → opcode = other) ∧
      (∀ opcode : Opcode,
        opcode.family.val = ((opcode &&& 0xF000) >>> 12).toNat ∧
        opcode.x.val = ((opcode &&& 0x0FFF &&& 0xFF00) >>> 8).toNat ∧
        opcode.y.val = ((opcode &&& 0x00FF &&& 0xFFF0) >>> 4).toNat ∧
        opcode.n.val = (opcode &&& 0x000F).toNat ∧
        opcode.nn.toNat = (opcode &&& 0x00FF).toNat ∧
        opcode.nnn.val = (opcode &&& 0x0FFF).toNat) ∧
      (∀ program : List Instruction, program.length ≤ 1792 → (∀ instruction ∈ program, instruction.WellFormed) →
        ∀ machine : Machine,
          (machine.perform (.load (Instruction.assemble program))).answer = .done ∧
          ∀ k instruction, program[k]? = some instruction →
            ∃ opcode,
              Opcode.read (machine.perform (.load (Instruction.assemble program))).machine.memory.toArray
                (0x200 + 2 * k) = .ok opcode ∧
              Instruction.read opcode = .ok instruction) ∧
      ∀ (bytes : Array UInt8) (pointer : Nat),
        (∃ opcode, Opcode.read bytes pointer = .ok opcode) ↔ pointer + 1 < bytes.size := by
  refine ⟨?_, ?_, ?_, ?_, ?_, ?_⟩
  · intro instruction h
    exact Instruction.decode?_encode h.1 h.2
  · intro opcode instruction h
    exact ⟨Instruction.wellFormed_of_decode? h, Instruction.encode_of_decode? h⟩
  · intro opcode other instruction h ho
    rw [← Instruction.encode_of_decode? h, ← Instruction.encode_of_decode? ho]
  · intro opcode
    exact ⟨opcode.family_shiftRight.symm, opcode.x_shiftRight.symm, opcode.y_shiftRight.symm,
      opcode.n_eq_masked.symm, opcode.nn_eq_masked.symm, opcode.nnn_eq_masked.symm⟩
  · intro program hl hw machine
    constructor
    · apply answer_perform_load_eq_done_iff.2
      rw [Instruction.length_assemble]
      exact Nat.mul_le_mul_left 2 hl
    · intro k instruction hk
      exact ⟨instruction.encode, read_load_assemble hl hk machine,
        Instruction.read_encode (hw instruction (List.mem_of_getElem? hk))⟩
  · intro bytes pointer
    exact Opcode.read_succeeds_iff

/-- A program of the greatest length, read where the memory ends. -/
theorem assemble_round_trip_full :
    let program := List.replicate 1792 (Instruction.loadRegisters 15)
    ∃ opcode,
      Opcode.read ((create .perStep {}).machine.perform (.load (Instruction.assemble program))).machine.memory.toArray
        0xFFE = .ok opcode ∧
      Instruction.read opcode = .ok (.loadRegisters 15) := by
  intro program
  have hw : ∀ instruction ∈ program, instruction.WellFormed := by
    intro instruction hi
    rw [List.eq_of_mem_replicate hi]
    exact ⟨Instruction.noConfusion, Instruction.noConfusion⟩
  have hlast : program[1791]? = some (.loadRegisters 15) := List.getElem?_replicate_of_lt (by decide)
  obtain ⟨-, -, -, -, hload, -⟩ := assemble_round_trip
  exact (hload program (Nat.le_of_eq List.length_replicate) hw (create .perStep {}).machine).2 1791 _ hlast

end Machine

end Chip8
