import Chip8.Machine.Execute

/-!
# What an instruction can do

An instruction fails exactly in the states that `Machine.Fails` lists (`execute_eq_error_iff`).  One that does not
fail writes the memory, the registers and the screen at most, and of the other parts those that
`machine_of_execute` names; its outcome is given by `outcome_of_execute`.
-/

namespace Chip8

private theorem map_eq_error_iff {α β : Type} {f : α → β} {result : Except Fault α} {fault : Fault} :
    result.map f = .error fault ↔ result = .error fault := by
  cases result <;> simp [Except.map]

theorem map_eq_ok_iff {α β : Type} {f : α → β} {result : Except Fault α} {value : β} :
    result.map f = .ok value ↔ ∃ a, result = .ok a ∧ f a = value := by
  cases result <;> simp [Except.map]

namespace Memory

theorem read_eq_error_iff {memory : Memory} {start length : Nat} {fault : Fault} :
    memory.read start length = .error fault ↔ 4096 < start + length ∧ fault = .outOfBounds start := by
  by_cases h : start + length ≤ 4096
  · have h' : ¬4096 < start + length := by omega
    simp [read_eq_ok h, h']
  · have h' : 4096 < start + length := by omega
    simp [read_eq_error h', h', eq_comm]

theorem length_of_read {memory : Memory} {start length : Nat} {bytes : List UInt8}
    (h : memory.read start length = .ok bytes) : bytes.length = length := by
  rw [read] at h
  split at h
  · cases h
    exact List.length_ofFn
  · cases h

theorem store_eq_error_iff {memory : Memory} {start : Nat} {bytes : List UInt8} {fault : Fault} :
    memory.store start bytes = .error fault ↔ 4096 < start + bytes.length ∧ fault = .outOfBounds start := by
  by_cases h : start + bytes.length ≤ 4096
  · have h' : ¬4096 < start + bytes.length := by omega
    simp [store_eq_ok h, h']
  · have h' : 4096 < start + bytes.length := by omega
    simp [store_eq_error h', h', eq_comm]

end Memory

namespace Machine

/-! ### Faults -/

/-- The faults of an instruction, each with the states in which it occurs. -/
inductive Fails (machine : Machine) : Instruction → Fault → Prop
  | ret (h : machine.stack = []) : Fails machine .ret .stackEmpty
  | call {nnn : Address} (h : stackCapacity ≤ machine.stack.length) : Fails machine (.call nnn) .stackFull
  | draw {x y : Register} {n : Fin 16} (h : 4096 < machine.index.toNat + n.val) :
      Fails machine (.draw x y n) (.outOfBounds machine.index.toNat)
  | storeDecimal {x : Register} (h : 4096 < machine.index.toNat + 3) :
      Fails machine (.storeDecimal x) (.outOfBounds machine.index.toNat)
  | storeRegisters {x : Register} (h : 4096 < machine.index.toNat + (x.val + 1)) :
      Fails machine (.storeRegisters x) (.outOfBounds machine.index.toNat)
  | loadRegisters {x : Register} (h : 4096 < machine.index.toNat + (x.val + 1)) :
      Fails machine (.loadRegisters x) (.outOfBounds machine.index.toNat)

theorem length_decimalDigits (value : UInt8) : (decimalDigits value).length = 3 := rfl

theorem length_take_registers (machine : Machine) (x : Register) :
    (machine.registers.toList.take (x.val + 1)).length = x.val + 1 := by
  have h := x.isLt
  simp only [List.length_take, Vector.length_toList]
  omega

theorem execute_eq_error_iff {machine : Machine} {instruction : Instruction} {fault : Fault} :
    machine.execute instruction = .error fault ↔ Fails machine instruction fault := by
  constructor
  · intro h
    cases instruction
    case ret =>
      simp only [execute] at h
      split at h
      · rename_i hs
        cases h
        exact .ret hs
      · cases h
    case call nnn =>
      simp only [execute] at h
      split at h
      · cases h
      · rename_i hs
        cases h
        exact .call (Nat.not_lt.1 hs)
    case draw x y n =>
      rw [execute, drawSprite, map_eq_error_iff, map_eq_error_iff, Memory.read_eq_error_iff] at h
      obtain ⟨h, rfl⟩ := h
      exact .draw h
    case storeDecimal x =>
      rw [execute, map_eq_error_iff, Memory.store_eq_error_iff, length_decimalDigits] at h
      obtain ⟨h, rfl⟩ := h
      exact .storeDecimal h
    case storeRegisters x =>
      rw [execute, map_eq_error_iff, Memory.store_eq_error_iff, length_take_registers] at h
      obtain ⟨h, rfl⟩ := h
      exact .storeRegisters h
    case loadRegisters x =>
      rw [execute, map_eq_error_iff, Memory.read_eq_error_iff] at h
      obtain ⟨h, rfl⟩ := h
      exact .loadRegisters h
    -- no other instruction fails
    all_goals cases h
  · intro h
    cases h with
    | ret h => simp [execute, h]
    | call h => rw [execute, if_neg (Nat.not_lt.2 h)]
    | draw h =>
      rw [execute, drawSprite, map_eq_error_iff, map_eq_error_iff, Memory.read_eq_error_iff]
      exact ⟨h, rfl⟩
    | storeDecimal h =>
      rw [execute, map_eq_error_iff, Memory.store_eq_error_iff, length_decimalDigits]
      exact ⟨h, rfl⟩
    | storeRegisters h =>
      rw [execute, map_eq_error_iff, Memory.store_eq_error_iff, length_take_registers]
      exact ⟨h, rfl⟩
    | loadRegisters h =>
      rw [execute, map_eq_error_iff, Memory.read_eq_error_iff]
      exact ⟨h, rfl⟩

/-! ### Effects -/

def indexAfter (machine : Machine) : Instruction → UInt16
  | .setIndex nnn => nnn.toWord
  | .addIndex x => (machine.index + (machine.register x).toUInt16) % 4096
  | .indexGlyph x => Font.address (.ofNat 16 (machine.register x).toNat)
  | _ => machine.index

def stackAfter (machine : Machine) : Instruction → List UInt16
  | .ret => machine.stack.tail
  | .call _ => machine.counter :: machine.stack
  | _ => machine.stack

def keypadAfter (machine : Machine) : Instruction → Keypad
  | .awaitKey _ => machine.keypad.takePress.2
  | _ => machine.keypad

def delayAfter (machine : Machine) : Instruction → Timer
  | .setDelay x => { value := machine.register x }
  | _ => machine.delay

def soundAfter (machine : Machine) : Instruction → Timer
  | .setSound x => { value := machine.register x }
  | _ => machine.sound

def randomAfter (machine : Machine) : Instruction → ByteSupply
  | .random _ _ => machine.random.rest
  | _ => machine.random

theorem calculate_eq (machine : Machine) (op : ArithmeticOp) (x y : Register) :
    machine.calculate op x y = { machine with registers := (machine.calculate op x y).registers } := by
  simp only [calculate]
  split <;> rfl

theorem machine_awaitKey (machine : Machine) (x : Register) :
    (machine.awaitKey x).machine =
      { machine with keypad := machine.keypad.takePress.2, registers := (machine.awaitKey x).machine.registers } := by
  unfold awaitKey
  split <;> simp [*, setRegister]

/-- The parts of a machine that an instruction leaves behind.  Memory, registers and screen are left open. -/
theorem machine_of_execute {machine : Machine} {instruction : Instruction} {effect : Effect}
    (h : machine.execute instruction = .ok effect) :
    effect.machine =
      { machine with
        memory := effect.machine.memory
        registers := effect.machine.registers
        screen := effect.machine.screen
        index := machine.indexAfter instruction
        stack := machine.stackAfter instruction
        keypad := machine.keypadAfter instruction
        delay := machine.delayAfter instruction
        sound := machine.soundAfter instruction
        random := machine.randomAfter instruction } := by
  cases instruction
  case ret =>
    simp only [execute] at h
    split at h
    · cases h
    · rename_i address rest hs
      cases h
      have e : machine.stackAfter .ret = rest := by simp [stackAfter, hs]
      rw [e]
      rfl
  case call nnn =>
    simp only [execute] at h
    split at h <;> cases h
    rfl
  case arithmetic op x y =>
    cases h
    dsimp only
    rw [calculate_eq]
    rfl
  case awaitKey x =>
    cases h
    rw [machine_awaitKey]
    rfl
  case draw x y n =>
    obtain ⟨drawn, hd, rfl⟩ := map_eq_ok_iff.1 h
    obtain ⟨bytes, -, rfl⟩ := map_eq_ok_iff.1 hd
    rfl
  case storeDecimal x | storeRegisters x | loadRegisters x =>
    obtain ⟨_, -, rfl⟩ := map_eq_ok_iff.1 h
    rfl
  all_goals
    cases h
    rfl

section Projections

variable {machine : Machine} {instruction : Instruction} {effect : Effect}
  (h : machine.execute instruction = .ok effect)

include h

theorem index_of_execute : effect.machine.index = machine.indexAfter instruction :=
  congrArg Machine.index (machine_of_execute h)

theorem stack_of_execute : effect.machine.stack = machine.stackAfter instruction :=
  congrArg Machine.stack (machine_of_execute h)

theorem keypad_of_execute : effect.machine.keypad = machine.keypadAfter instruction :=
  congrArg Machine.keypad (machine_of_execute h)

end Projections

def outcomeAfter (machine : Machine) : Instruction → Outcome
  | .clear | .draw .. => .drawn
  | .awaitKey _ => if machine.keypad.takePress.1.isSome then .plain else .waiting
  | _ => .plain

theorem outcome_of_execute {machine : Machine} {instruction : Instruction} {effect : Effect}
    (h : machine.execute instruction = .ok effect) : effect.outcome = machine.outcomeAfter instruction := by
  cases instruction
  case ret =>
    simp only [execute] at h
    split at h <;> cases h
    rfl
  case call nnn =>
    simp only [execute] at h
    split at h <;> cases h
    rfl
  case awaitKey x =>
    cases h
    simp only [awaitKey, outcomeAfter]
    split <;> simp [*]
  case draw x y n | storeDecimal x | storeRegisters x | loadRegisters x =>
    obtain ⟨_, -, rfl⟩ := map_eq_ok_iff.1 h
    rfl
  all_goals
    cases h
    rfl

end Machine

end Chip8
