import Chip8.Proofs.Commands
import Chip8.Proofs.Execution
import Chip8.Proofs.Keypad

/-!
# Peripherals

What surrounds a running program: who ticks the timers, the timers, the supply of random bytes, the keypad and the
events that wait for it.  The memory, the registers, the index, the counter, the stack and the screen are the
program's own.

`Instruction.SeesSame` lists what an instruction looks at among the peripherals.  On a machine with other peripherals
that look the same to it, an instruction does what it does without them (`Machine.execute_attach`), and so does the
cycle that runs it (`Machine.cycle_attach`).
-/

namespace Chip8

structure Peripherals where
  timing : Timing
  random : ByteSupply
  delay : Timer
  sound : Timer
  keypad : Keypad
  pending : List KeyEvent

/-- The instruction finds the same in both peripherals, as far as it looks at them. -/
def Instruction.SeesSame (first second : Peripherals) : Instruction → Prop
  | readDelay _ => second.delay = first.delay
  | random _ _ => second.random.peek = first.random.peek
  | skipKeyDown _ | skipKeyUp _ => second.keypad.down = first.keypad.down
  | awaitKey _ => second.keypad.takePress.1 = first.keypad.takePress.1
  | _ => True

/-- What an instruction looks at are the delay timer, the random bytes, the keys and the wait. -/
theorem Instruction.seesSame_of_eq {first second : Peripherals} (hd : second.delay = first.delay)
    (hr : second.random = first.random) (hk : second.keypad.down = first.keypad.down)
    (hw : second.keypad.wait = first.keypad.wait) (instruction : Instruction) :
    instruction.SeesSame first second := by
  cases instruction
  case readDelay x => exact hd
  case random x nn => exact congrArg ByteSupply.peek hr
  case skipKeyDown x | skipKeyUp x => exact hk
  case awaitKey x =>
    rw [SeesSame, Keypad.fst_takePress, Keypad.fst_takePress, hw]
  all_goals trivial

namespace Machine

def peripherals (machine : Machine) : Peripherals where
  timing := machine.timing
  random := machine.random
  delay := machine.delay
  sound := machine.sound
  keypad := machine.keypad
  pending := machine.pending

/-- The machine with other peripherals. -/
def attach (machine : Machine) (peripherals : Peripherals) : Machine :=
  { machine with
    timing := peripherals.timing
    random := peripherals.random
    delay := peripherals.delay
    sound := peripherals.sound
    keypad := peripherals.keypad
    pending := peripherals.pending }

def peripheralsAfter (machine : Machine) (instruction : Instruction) : Peripherals where
  timing := machine.timing
  random := machine.randomAfter instruction
  delay := machine.delayAfter instruction
  sound := machine.soundAfter instruction
  keypad := machine.keypadAfter instruction
  pending := machine.pending

theorem peripherals_of_execute {machine : Machine} {instruction : Instruction} {effect : Effect}
    (h : machine.execute instruction = .ok effect) :
    effect.machine.peripherals = machine.peripheralsAfter instruction :=
  congrArg peripherals (machine_of_execute h)

/-- The counter has no part in it. -/
theorem peripheralsAfter_advanced (machine : Machine) (instruction : Instruction) :
    machine.advanced.peripheralsAfter instruction = machine.peripheralsAfter instruction := by
  cases instruction <;> rfl

/-! ### Instructions -/

/-- An instruction that sees the same does the same. -/
theorem execute_attach (machine : Machine) {other : Peripherals} {instruction : Instruction}
    (h : instruction.SeesSame machine.peripherals other) :
    (machine.attach other).execute instruction =
      (machine.execute instruction).map fun effect =>
        { effect with machine := effect.machine.attach ((machine.attach other).peripheralsAfter instruction) } := by
  cases instruction
  case ret =>
    simp only [execute, attach]
    cases machine.stack <;> rfl
  case call nnn =>
    have hstack : (machine.attach other).stack = machine.stack := rfl
    by_cases hroom : machine.stack.length < stackCapacity
    · rw [execute, execute, hstack, if_pos hroom, if_pos hroom]
      rfl
    · rw [execute, execute, hstack, if_neg hroom, if_neg hroom]
      rfl
  case arithmetic op x y =>
    simp only [execute, calculate, register, attach]
    cases op.flag? machine.registers[x.val] machine.registers[y.val] <;> rfl
  case readDelay x =>
    have hdelay : other.delay = machine.delay := h
    simp only [execute, attach, hdelay]
    rfl
  case random x nn =>
    have hpeek : other.random.peek = machine.random.peek := h
    simp only [execute, attach, hpeek]
    rfl
  case skipKeyDown x | skipKeyUp x =>
    have hdown : other.keypad.down = machine.keypad.down := h
    simp only [execute, attach, Keypad.isPressed, hdown]
    rfl
  case awaitKey x =>
    have hpress : other.keypad.takePress.1 = machine.keypad.takePress.1 := h
    simp only [execute, awaitKey, attach, peripheralsAfter, keypadAfter]
    -- the same press is taken, whatever else the keypads hold
    rcases hmachine : machine.keypad.takePress with ⟨press, keypad⟩
    rcases hother : other.keypad.takePress with ⟨same, changed⟩
    rw [hmachine, hother] at hpress
    subst hpress
    cases same <;> rfl
  case draw x y n =>
    simp only [execute, drawSprite, attach]
    cases machine.memory.read machine.index.toNat n.val <;> rfl
  case storeDecimal x =>
    simp only [execute, attach, register]
    cases machine.memory.store machine.index.toNat (decimalDigits machine.registers[x.val]) <;> rfl
  case storeRegisters x =>
    simp only [execute, attach]
    cases machine.memory.store machine.index.toNat (machine.registers.toList.take (x.val + 1)) <;> rfl
  case loadRegisters x =>
    simp only [execute, attach]
    cases machine.memory.read machine.index.toNat (x.val + 1) <;> rfl
  -- the others neither fail nor look at the peripherals
  all_goals rfl

/-! ### Cycles -/

/-- If the instruction at the counter sees the same, the cycles differ in nothing but the peripherals that they leave
behind, and these are what that instruction made of those before. -/
theorem cycle_attach (machine : Machine) {other : Peripherals}
    (h : ∀ opcode instruction, machine.Fetches opcode → Instruction.decode? opcode = some instruction →
      instruction.SeesSame machine.peripherals other) :
    ∃ later, (machine.attach other).cycle = { machine.cycle with machine := machine.cycle.machine.attach later } ∧
      ((machine.cycle.machine.peripherals = machine.peripherals ∧ later = other) ∨
        ∃ instruction, machine.cycle.machine.peripherals = machine.peripheralsAfter instruction ∧
          later = (machine.attach other).peripheralsAfter instruction) := by
  have hfetches : ∀ {opcode}, machine.Fetches opcode → (machine.attach other).Fetches opcode :=
    fun hf => hf.of_eq rfl rfl
  have hc := machine.cycle_cases
  generalize machine.cycle = report at hc
  cases hc with
  | outside hle =>
    rw [cycle_of_le (show 4096 ≤ (machine.attach other).counter.toNat + 1 from hle)]
    exact ⟨other, rfl, .inl ⟨rfl, rfl⟩⟩
  | unsupported fetches decodes =>
    rw [cycle_of_fetches (hfetches fetches), dispatch_of_decode?_eq_none decodes]
    exact ⟨other, rfl, .inl ⟨rfl, rfl⟩⟩
  | @failed opcode instruction fault fetches decodes executes =>
    have he : (machine.attach other).advanced.execute instruction = _ :=
      machine.advanced.execute_attach (h opcode instruction fetches decodes)
    rw [executes] at he
    rw [cycle_of_fetches (hfetches fetches), dispatch_of_execute_eq_error decodes he]
    exact ⟨other, rfl, .inl ⟨rfl, rfl⟩⟩
  | @completed opcode instruction effect fetches decodes executes =>
    have he : (machine.attach other).advanced.execute instruction = _ :=
      machine.advanced.execute_attach (h opcode instruction fetches decodes)
    rw [executes] at he
    rw [cycle_of_fetches (hfetches fetches), dispatch_of_execute_eq_ok decodes he]
    refine ⟨(machine.attach other).advanced.peripheralsAfter instruction, rfl, .inr ⟨instruction, ?_, ?_⟩⟩
    · rw [← peripheralsAfter_advanced]
      exact peripherals_of_execute executes
    · rw [peripheralsAfter_advanced]

/-- No cycle looks at the timing, the sound timer, the last transition or the pending events. -/
theorem cycle_attach_of_eq (machine : Machine) (other : Peripherals) (hd : other.delay = machine.delay)
    (hr : other.random = machine.random) (hk : other.keypad.down = machine.keypad.down)
    (hw : other.keypad.wait = machine.keypad.wait) :
    ∃ later, (machine.attach other).cycle = { machine.cycle with machine := machine.cycle.machine.attach later } ∧
      ((machine.cycle.machine.peripherals = machine.peripherals ∧ later = other) ∨
        ∃ instruction, machine.cycle.machine.peripherals = machine.peripheralsAfter instruction ∧
          later = (machine.attach other).peripheralsAfter instruction) :=
  machine.cycle_attach fun _ instruction _ _ => instruction.seesSame_of_eq hd hr hk hw

theorem peripherals_cycle (machine : Machine) :
    machine.cycle.machine.peripherals = machine.peripherals ∨
      ∃ instruction, machine.cycle.machine.peripherals = machine.peripheralsAfter instruction := by
  obtain ⟨later, -, hlater⟩ := machine.cycle_attach_of_eq machine.peripherals rfl rfl rfl rfl
  rcases hlater with ⟨hp, -⟩ | ⟨instruction, hp, -⟩
  · exact .inl hp
  · exact .inr ⟨instruction, hp⟩

/-- No instruction changes who ticks the timers. -/
theorem timing_cycle (machine : Machine) : machine.cycle.machine.timing = machine.timing := by
  rcases machine.peripherals_cycle with hp | ⟨instruction, hp⟩
  · exact congrArg Peripherals.timing hp
  · exact congrArg Peripherals.timing hp

/-- No instruction writes to the pending events. -/
theorem pending_cycle (machine : Machine) : machine.cycle.machine.pending = machine.pending := by
  rcases machine.peripherals_cycle with hp | ⟨instruction, hp⟩
  · exact congrArg Peripherals.pending hp
  · exact congrArg Peripherals.pending hp

/-- No instruction looks at the timing or at the pending events, and none writes to them. -/
theorem cycle_with_host (machine : Machine) (timing : Timing) (pending : List KeyEvent) :
    { machine with timing, pending }.cycle =
      { machine.cycle with machine := { machine.cycle.machine with timing, pending } } := by
  let changed : Peripherals := { machine.peripherals with timing, pending }
  obtain ⟨later, hcycle, hlater⟩ := machine.cycle_attach_of_eq changed rfl rfl rfl rfl
  have hsame : later = { machine.cycle.machine.peripherals with timing, pending } := by
    rcases hlater with ⟨hp, rfl⟩ | ⟨instruction, hp, rfl⟩
    · rw [hp]
    · rw [hp]
      cases instruction <;> rfl
  rw [hsame] at hcycle
  exact hcycle

end Machine

end Chip8
