import Chip8.Machine.Step
import Chip8.Proofs.Encoding

/-!
# How a cycle can go

`Machine.Fetches` says which opcode stands at the counter.  A cycle goes in one of four ways, with the machine, the
answer and the records that belong to each (`cycle_cases`): there is no opcode at the counter, the opcode stands for
no instruction, the instruction fails, or the instruction completes.  A step is such a cycle of the machine whose
pending key events were applied.
-/

namespace Chip8.Machine

/-- The opcode stands at the counter, with its second byte still in memory. -/
def Fetches (machine : Machine) (opcode : Opcode) : Prop :=
  ∃ h : machine.counter.toNat + 1 < 4096,
    Opcode.ofBytes machine.memory[machine.counter.toNat] machine.memory[machine.counter.toNat + 1] = opcode

/-- The machine with its counter behind the opcode, as instructions find it. -/
def advanced (machine : Machine) : Machine := { machine with counter := Advance.skip.apply machine.counter }

theorem counter_advanced (machine : Machine) :
    machine.advanced.counter = .ofNat ((machine.counter.toNat + 2) % 4096) := by
  apply UInt16.toNat_inj.1
  rw [advanced, Advance.toNat_apply_skip, UInt16.toNat_ofNat']
  omega

theorem exists_fetches {machine : Machine} (h : machine.counter.toNat + 1 < 4096) :
    ∃ opcode, machine.Fetches opcode :=
  ⟨_, h, rfl⟩

theorem fetches_of_getElem {machine : Machine} {a : Nat} {high low : UInt8} (h : machine.counter.toNat = a)
    (ha : a + 1 < 4096) (hh : machine.memory[a] = high) (hl : machine.memory[a + 1] = low) :
    machine.Fetches (Opcode.ofBytes high low) := by
  subst h hh hl
  exact ⟨ha, rfl⟩

theorem fetches_of_bytes {machine : Machine} {a : Nat} {high low : UInt8} {opcode : Opcode}
    (h : machine.counter.toNat = a) (ha : a + 1 < 4096) (hh : machine.memory[a] = high)
    (hl : machine.memory[a + 1] = low) (ho : Opcode.ofBytes high low = opcode) : machine.Fetches opcode := by
  subst ho
  exact fetches_of_getElem h ha hh hl

/-- Fetching depends on the counter and the memory alone. -/
theorem Fetches.of_eq {machine other : Machine} {opcode : Opcode} (h : machine.Fetches opcode)
    (hc : other.counter = machine.counter) (hm : other.memory = machine.memory) : other.Fetches opcode := by
  cases machine
  cases other
  cases hc
  cases hm
  exact h

theorem Fetches.unique {machine : Machine} {opcode other : Opcode} (h : machine.Fetches opcode)
    (h' : machine.Fetches other) : opcode = other := by
  obtain ⟨-, rfl⟩ := h
  obtain ⟨-, rfl⟩ := h'
  rfl

theorem read_of_fetches {machine : Machine} {opcode : Opcode} (h : machine.Fetches opcode) :
    Opcode.read machine.memory.toArray machine.counter.toNat = .ok opcode := by
  obtain ⟨h, rfl⟩ := h
  rw [Opcode.read_eq_ok_iff, Opcode.at?_eq_some (by simpa using h)]
  rfl

theorem read_of_le {machine : Machine} (h : 4096 ≤ machine.counter.toNat + 1) :
    Opcode.read machine.memory.toArray machine.counter.toNat =
      .error (.noOpcode machine.counter.toNat 4096) := by
  rw [Opcode.read_eq_error_iff]
  simpa using h

/-! ### The cycle -/

/-- The ways of a cycle, each with the report that it ends in. -/
inductive Cycle (machine : Machine) : Report (Except Fault Outcome) → Prop
  | outside (h : 4096 ≤ machine.counter.toNat + 1) :
      Cycle machine { machine, answer := .error (.noOpcode machine.counter.toNat 4096) }
  | unsupported {opcode : Opcode} (fetches : machine.Fetches opcode)
      (decodes : Instruction.decode? opcode = none) :
      Cycle machine
        { machine := machine.advanced
          answer := .ok (.unsupported opcode)
          log := [.fetched opcode machine.counter, .unsupported opcode (machine.advanced.counter - 2)] }
  | failed {opcode : Opcode} {instruction : Instruction} {fault : Fault} (fetches : machine.Fetches opcode)
      (decodes : Instruction.decode? opcode = some instruction)
      (executes : machine.advanced.execute instruction = .error fault) :
      Cycle machine
        { machine, answer := .error fault, log := [.fetched opcode machine.counter, .executing instruction] }
  | completed {opcode : Opcode} {instruction : Instruction} {effect : Effect} (fetches : machine.Fetches opcode)
      (decodes : Instruction.decode? opcode = some instruction)
      (executes : machine.advanced.execute instruction = .ok effect) :
      Cycle machine
        { machine := effect.settled
          answer := .ok effect.outcome
          log := .fetched opcode machine.counter :: .executing instruction :: effect.log }

theorem cycle_of_fetches {machine : Machine} {opcode : Opcode} (h : machine.Fetches opcode) :
    machine.cycle =
      { machine.dispatch opcode with
        log := .fetched opcode machine.counter :: (machine.dispatch opcode).log } := by
  rw [cycle, read_of_fetches h]

theorem cycle_of_le {machine : Machine} (h : 4096 ≤ machine.counter.toNat + 1) :
    machine.cycle = { machine, answer := .error (.noOpcode machine.counter.toNat 4096) } := by
  rw [cycle, read_of_le h]

theorem dispatch_of_decode?_eq_none {opcode : Opcode} (h : Instruction.decode? opcode = none)
    (machine : Machine) :
    machine.dispatch opcode =
      { machine := machine.advanced
        answer := .ok (.unsupported opcode)
        log := [.unsupported opcode (machine.advanced.counter - 2)] } := by
  simp only [dispatch, h]
  rfl

theorem dispatch_of_execute_eq_error {machine : Machine} {opcode : Opcode} {instruction : Instruction}
    {fault : Fault} (h : Instruction.decode? opcode = some instruction)
    (h' : machine.advanced.execute instruction = .error fault) :
    machine.dispatch opcode = { machine, answer := .error fault, log := [.executing instruction] } := by
  unfold advanced at h'
  simp only [dispatch, h, h']

theorem dispatch_of_execute_eq_ok {machine : Machine} {opcode : Opcode} {instruction : Instruction}
    {effect : Effect} (h : Instruction.decode? opcode = some instruction)
    (h' : machine.advanced.execute instruction = .ok effect) :
    machine.dispatch opcode =
      { machine := effect.settled, answer := .ok effect.outcome, log := .executing instruction :: effect.log } := by
  unfold advanced at h'
  simp only [dispatch, h, h']

/-- There are no other ways. -/
theorem cycle_cases (machine : Machine) : Cycle machine machine.cycle := by
  by_cases h : machine.counter.toNat + 1 < 4096
  · obtain ⟨opcode, hf⟩ := exists_fetches h
    rw [cycle_of_fetches hf]
    cases hd : Instruction.decode? opcode with
    | none =>
      rw [dispatch_of_decode?_eq_none hd]
      exact .unsupported hf hd
    | some instruction =>
      cases he : machine.advanced.execute instruction with
      | error fault =>
        rw [dispatch_of_execute_eq_error hd he]
        exact .failed hf hd he
      | ok effect =>
        rw [dispatch_of_execute_eq_ok hd he]
        exact .completed hf hd he
  · rw [cycle_of_le (Nat.not_lt.1 h)]
    exact .outside (Nat.not_lt.1 h)

theorem machine_cycle_of_error {machine : Machine} {fault : Fault} (h : machine.cycle.answer = .error fault) :
    machine.cycle.machine = machine := by
  have hc := machine.cycle_cases
  generalize machine.cycle = report at hc h
  cases hc with
  | outside | failed => rfl
  | unsupported | completed => cases h

end Chip8.Machine
