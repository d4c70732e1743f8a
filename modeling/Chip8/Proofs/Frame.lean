import Chip8.Proofs.Commands
import Chip8.Proofs.Execution
import Mathlib.Data.List.GetD
import Mathlib.Tactic.ByContra

/-!
# What instructions leave alone

Which cells an instruction can store to, which registers it can assign, and which instructions move the index or the
stack or draw on the screen.  One that completes changes nothing else of these parts (`Machine.framed_of_execute`), and
commands that leave the program in memory change them by such instructions alone (`Machine.perform_cases`).  So
whatever differs after a session, an instruction ran in it that can have changed that (`Machine.ran_of_change`).
-/

namespace Chip8

/-- The operations that set the flag behind the result. -/
def ArithmeticOp.SetsFlag : ArithmeticOp → Prop
  | add | subtract | shiftRight | subtractFrom | shiftLeft => True
  | copy | or | and | xor => False

namespace Instruction

/-- The cells that the instruction can store to, on the machine. -/
def StoresTo (machine : Machine) (a : Nat) : Instruction → Prop
  | storeDecimal _ => machine.index.toNat ≤ a ∧ a < machine.index.toNat + 3
  | storeRegisters x => machine.index.toNat ≤ a ∧ a ≤ machine.index.toNat + x.val
  | _ => False

/-- The registers that the instruction can assign. -/
def Assigns (k : Register) : Instruction → Prop
  | set x _ | add x _ | random x _ | readDelay x | awaitKey x => x = k
  | arithmetic op x _ => x = k ∨ (k = Machine.flagRegister ∧ op.SetsFlag)
  | draw .. => k = Machine.flagRegister
  | loadRegisters x => k.val ≤ x.val
  | _ => False

def MovesIndex : Instruction → Prop
  | setIndex _ | addIndex _ | indexGlyph _ => True
  | _ => False

def MovesStack : Instruction → Prop
  | call _ | ret => True
  | _ => False

def Draws : Instruction → Prop
  | clear | draw .. => True
  | _ => False

end Instruction

theorem Memory.bounds_of_store {memory stored : Memory} {start : Nat} {bytes : List UInt8}
    (h : memory.store start bytes = .ok stored) {a : Nat} (ha : a < 4096) (hne : stored[a] ≠ memory[a]) :
    start ≤ a ∧ a < start + bytes.length := by
  rw [store] at h
  split at h
  · cases h
    rw [getElem_write] at hne
    by_cases h₁ : a < start
    · rw [if_pos h₁] at hne
      exact absurd rfl hne
    · refine ⟨Nat.not_lt.1 h₁, Nat.lt_of_not_le fun h₂ => hne ?_⟩
      rw [if_neg h₁, List.getD_eq_default _ _ (by omega)]
  · cases h

namespace Machine

/-! ### Registers -/

theorem register_setRegister (machine : Machine) (x k : Register) (value : UInt8) :
    (machine.setRegister x value).register k = if x = k then value else machine.register k := by
  simp [register, setRegister, Vector.getElem_set, Fin.ext_iff]

theorem eq_of_setRegister_ne {machine : Machine} {x k : Register} {value : UInt8}
    (h : (machine.setRegister x value).register k ≠ machine.register k) : x = k := by
  by_contra hne
  rw [register_setRegister, if_neg hne] at h
  exact h rfl

theorem assigns_of_calculate_ne {machine : Machine} {op : ArithmeticOp} {x y k : Register}
    (h : (machine.calculate op x y).register k ≠ machine.register k) : (Instruction.arithmetic op x y).Assigns k := by
  by_contra hne
  obtain ⟨hx, hflag⟩ := not_or.1 hne
  apply h
  cases op
  case copy | or | and | xor =>
    change (machine.setRegister x _).register k = _
    rw [register_setRegister, if_neg hx]
  -- the other operations write the flag after the result
  all_goals
    have hk : flagRegister ≠ k := fun e => hflag ⟨e.symm, trivial⟩
    change ((machine.setRegister x _).setRegister flagRegister _).register k = _
    rw [register_setRegister, if_neg hk, register_setRegister, if_neg hx]

/-- A wait that goes on assigns nothing. -/
theorem assigns_of_awaitKey_ne {machine : Machine} {x k : Register}
    (h : (machine.awaitKey x).machine.register k ≠ machine.register k) :
    (Instruction.awaitKey x).Assigns k ∧ (machine.awaitKey x).outcome ≠ .waiting := by
  unfold awaitKey at h ⊢
  split at h
  · exact ⟨eq_of_setRegister_ne h, Outcome.noConfusion⟩
  · exact absurd rfl h

theorem lt_of_fillRegisters_ne {machine : Machine} {bytes : List UInt8} {k : Register}
    (h : (machine.fillRegisters bytes).register k ≠ machine.register k) : k.val < bytes.length := by
  by_contra hle
  apply h
  simp only [register, fillRegisters, Vector.getElem_ofFn]
  exact List.getD_eq_default _ _ (Nat.not_lt.1 hle)

/-! ### Instructions -/

/-- The effect writes memory, registers and screen only where its instruction can. -/
structure Framed (machine : Machine) (instruction : Instruction) (effect : Effect) : Prop where
  memory : ∀ a (_ : a < 4096), effect.machine.memory[a] ≠ machine.memory[a] → instruction.StoresTo machine a
  registers : ∀ k, effect.machine.register k ≠ machine.register k →
    instruction.Assigns k ∧ effect.outcome ≠ .waiting
  screen : effect.machine.screen ≠ machine.screen → instruction.Draws ∧ effect.outcome = .drawn

namespace Framed

variable {machine : Machine} {instruction : Instruction} {effect : Effect}

theorem of_registers (hm : effect.machine.memory = machine.memory) (hs : effect.machine.screen = machine.screen)
    (hr : ∀ k, effect.machine.register k ≠ machine.register k → instruction.Assigns k ∧ effect.outcome ≠ .waiting) :
    Framed machine instruction effect where
  memory a _ hne := by
    rw [hm] at hne
    exact absurd rfl hne
  registers := hr
  screen hne := absurd hs hne

theorem of_memory (hr : effect.machine.registers = machine.registers) (hs : effect.machine.screen = machine.screen)
    (hm : ∀ a (_ : a < 4096), effect.machine.memory[a] ≠ machine.memory[a] → instruction.StoresTo machine a) :
    Framed machine instruction effect where
  memory := hm
  registers k hne := by
    rw [register, hr] at hne
    exact absurd rfl hne
  screen hne := absurd hs hne

theorem of_nothing (hm : effect.machine.memory = machine.memory) (hr : effect.machine.registers = machine.registers)
    (hs : effect.machine.screen = machine.screen) : Framed machine instruction effect := by
  refine of_memory hr hs fun a _ hne => ?_
  rw [hm] at hne
  exact absurd rfl hne

end Framed

/-- An instruction that completes has such an effect. -/
theorem framed_of_execute {machine : Machine} {instruction : Instruction} {effect : Effect}
    (h : machine.execute instruction = .ok effect) : Framed machine instruction effect := by
  cases instruction
  case ret =>
    simp only [execute] at h
    split at h <;> cases h
    exact .of_nothing rfl rfl rfl
  case call nnn =>
    simp only [execute] at h
    split at h <;> cases h
    exact .of_nothing rfl rfl rfl
  case clear =>
    cases h
    exact ⟨fun _ _ hne => absurd rfl hne, fun _ hne => absurd rfl hne, fun _ => ⟨trivial, rfl⟩⟩
  case draw x y n =>
    obtain ⟨drawn, hd, rfl⟩ := map_eq_ok_iff.1 h
    obtain ⟨bytes, -, rfl⟩ := map_eq_ok_iff.1 hd
    exact ⟨fun _ _ hne => absurd rfl hne, fun _ hne => ⟨(eq_of_setRegister_ne hne).symm, Outcome.noConfusion⟩,
      fun _ => ⟨trivial, rfl⟩⟩
  case set x nn | add x nn | random x nn | readDelay x =>
    cases h
    exact .of_registers rfl rfl fun _ hne => ⟨eq_of_setRegister_ne hne, Outcome.noConfusion⟩
  case arithmetic op x y =>
    cases h
    have hm : (machine.calculate op x y).memory = machine.memory := by rw [calculate_eq]
    have hs : (machine.calculate op x y).screen = machine.screen := by rw [calculate_eq]
    exact .of_registers hm hs fun _ hne => ⟨assigns_of_calculate_ne hne, Outcome.noConfusion⟩
  case awaitKey x =>
    cases h
    have hm : (machine.awaitKey x).machine.memory = machine.memory := by rw [machine_awaitKey]
    have hs : (machine.awaitKey x).machine.screen = machine.screen := by rw [machine_awaitKey]
    exact .of_registers hm hs fun _ hne => assigns_of_awaitKey_ne hne
  case loadRegisters x =>
    obtain ⟨bytes, hr, rfl⟩ := map_eq_ok_iff.1 h
    have hm : (machine.fillRegisters bytes).memory = machine.memory := by rw [fillRegisters]
    have hs : (machine.fillRegisters bytes).screen = machine.screen := by rw [fillRegisters]
    refine .of_registers hm hs fun k hne => ⟨?_, Outcome.noConfusion⟩
    have hk := lt_of_fillRegisters_ne hne
    rw [Memory.length_of_read hr] at hk
    exact Nat.le_of_lt_succ hk
  case storeDecimal x =>
    obtain ⟨stored, hs, rfl⟩ := map_eq_ok_iff.1 h
    exact .of_memory rfl rfl fun _ ha hne => Memory.bounds_of_store hs ha hne
  case storeRegisters x =>
    obtain ⟨stored, hs, rfl⟩ := map_eq_ok_iff.1 h
    refine .of_memory rfl rfl fun a ha hne => ?_
    have hbounds := Memory.bounds_of_store hs ha hne
    rw [length_take_registers] at hbounds
    exact ⟨hbounds.1, Nat.le_of_lt_succ hbounds.2⟩
  -- the others write neither memory nor registers nor screen
  all_goals
    cases h
    exact .of_nothing rfl rfl rfl

section Moves

variable {machine : Machine} {instruction : Instruction} {effect : Effect}
  (h : machine.execute instruction = .ok effect)

include h

theorem movesIndex_of_execute (hne : effect.machine.index ≠ machine.index) : instruction.MovesIndex := by
  rw [index_of_execute h] at hne
  cases instruction
  case setIndex nnn | addIndex x | indexGlyph x => trivial
  all_goals exact absurd rfl hne

theorem movesStack_of_execute (hne : effect.machine.stack ≠ machine.stack) : instruction.MovesStack := by
  rw [stack_of_execute h] at hne
  cases instruction
  case call nnn | ret => trivial
  all_goals exact absurd rfl hne

end Moves

/-! ### Commands -/

theorem heeded_eq (machine : Machine) (command : Command) :
    ∃ keypad pending, machine.heeded command = { machine with keypad, pending } := by
  cases command <;> exact ⟨_, _, rfl⟩

/-- A command that leaves the program in memory changes what is left of the machine beside the counter, the host's
part and the random bytes only by an instruction that completes. -/
theorem perform_cases (machine : Machine) {command : Command} (hk : command.keepsProgram) :
    (∃ counter keypad pending delay sound random,
        (machine.perform command).machine = { machine with counter, keypad, pending, delay, sound, random }) ∨
      (command.steps ∧ ∃ opcode instruction effect shown,
        machine.Fetches opcode ∧ Instruction.decode? opcode = some instruction ∧
        (machine.heeded command).advanced.execute instruction = .ok effect ∧
        (machine.perform command).answer = .stepped effect.outcome shown ∧
        ∃ delay sound, (machine.perform command).machine = { effect.settled with delay, sound }) := by
  by_cases hs : command.steps
  · obtain ⟨keypad, pending, hh⟩ := machine.heeded_eq command
    obtain ⟨delay, sound, hm⟩ := machine_perform_eq_cycle hs machine
    have hok : ∀ outcome, (machine.heeded command).cycle.answer = .ok outcome →
        ∃ shown, (machine.perform command).answer = .stepped outcome shown ∧ (outcome ≠ .drawn → shown = none) :=
      fun _ => answer_perform_of_ok hs
    have hc := (machine.heeded command).cycle_cases
    generalize (machine.heeded command).cycle = report at hm hok hc
    cases hc with
    | outside | unsupported | failed =>
      rw [hm, hh]
      exact .inl ⟨_, _, _, _, _, _, rfl⟩
    | completed fetches decodes executes =>
      obtain ⟨shown, ha, -⟩ := hok _ rfl
      exact .inr ⟨hs, _, _, _, shown, fetches_heeded.1 fetches, decodes, executes, ha, delay, sound, hm⟩
  · obtain ⟨keypad, pending, delay, sound, random, hm⟩ :=
      machine_perform_of_idle hs (not_restarts_of_keepsProgram hk machine)
    exact .inl ⟨machine.counter, keypad, pending, delay, sound, random, hm⟩

/-- A step whose instruction writes the memory and the registers at most does nothing else, beside the keys that it
takes in, the counter and the timers. -/
theorem perform_of_execute_writes {machine : Machine} {command : Command} {instruction : Instruction}
    {memory : Memory} {registers : Vector UInt8 16} (hs : command.steps) (hf : machine.Fetches instruction.encode)
    (hd : Instruction.decode? instruction.encode = some instruction)
    (he : ∀ counter keypad pending, { machine with counter, keypad, pending }.execute instruction =
      .ok { machine := { machine with counter, keypad, pending, memory, registers } }) :
    (machine.perform command).answer = .stepped .plain none ∧
      ∃ counter keypad pending delay sound, (machine.perform command).machine =
        { machine with memory, registers, counter, keypad, pending, delay, sound } := by
  obtain ⟨keypad, pending, hh⟩ := machine.heeded_eq command
  have heffect := he (machine.heeded command).advanced.counter keypad pending
  have hadvanced : (machine.heeded command).advanced =
      { machine with counter := (machine.heeded command).advanced.counter, keypad, pending } := by
    rw [hh]
    rfl
  rw [← hadvanced] at heffect
  refine ⟨answer_perform_of_execute hf hd heffect hs Outcome.noConfusion, ?_⟩
  rw [machine_perform_of_execute hf hd heffect hs, elapse_eq]
  exact ⟨_, _, _, _, _, rfl⟩

/-! ### Sessions -/

/-- What differs after a session was changed by one of its commands. -/
theorem exists_change {α : Type} (f : Machine → α) {machine : Machine} {commands : List Command}
    (h : f (machine.after commands) ≠ f machine) :
    ∃ earlier command later, commands = earlier ++ command :: later ∧
      f ((machine.after earlier).perform command).machine ≠ f (machine.after earlier) := by
  induction commands generalizing machine with
  | nil => exact absurd rfl h
  | cons command rest ih =>
    by_cases hfirst : f (machine.perform command).machine = f machine
    · rw [← hfirst] at h
      obtain ⟨earlier, other, later, rfl, hne⟩ := ih h
      exact ⟨command :: earlier, other, later, rfl, hne⟩
    · exact ⟨[], command, rest, rfl, hfirst⟩

/-- In the session, the instruction ran on the machine `before` and completed with the outcome. -/
def Ran (machine : Machine) (commands : List Command) (before : Machine) (instruction : Instruction)
    (outcome : Outcome) : Prop :=
  ∃ earlier command later opcode shown, commands = earlier ++ command :: later ∧ command.steps ∧
    before = machine.after earlier ∧ before.Fetches opcode ∧ Instruction.decode? opcode = some instruction ∧
    (before.perform command).answer = .stepped outcome shown

theorem not_ran_nil {machine before : Machine} {instruction : Instruction} {outcome : Outcome} :
    ¬machine.Ran [] before instruction outcome := by
  rintro ⟨earlier, command, later, opcode, shown, h, -⟩
  simp at h

/-- What ran in a session ran at its first command or after it. -/
theorem ran_cons {machine before : Machine} {command : Command} {rest : List Command} {instruction : Instruction}
    {outcome : Outcome} :
    machine.Ran (command :: rest) before instruction outcome ↔
      (command.steps ∧ before = machine ∧ ∃ opcode shown, before.Fetches opcode ∧
          Instruction.decode? opcode = some instruction ∧
          (before.perform command).answer = .stepped outcome shown) ∨
        (machine.perform command).machine.Ran rest before instruction outcome := by
  constructor
  · rintro ⟨earlier, other, later, opcode, shown, h, hs, rfl, hf, hd, ha⟩
    cases earlier with
    | nil =>
      cases h
      exact .inl ⟨hs, rfl, opcode, shown, hf, hd, ha⟩
    | cons first earlier =>
      cases h
      exact .inr ⟨earlier, other, later, opcode, shown, rfl, hs, rfl, hf, hd, ha⟩
  · rintro (⟨hs, rfl, opcode, shown, hf, hd, ha⟩ | ⟨earlier, other, later, opcode, shown, rfl, hs, rfl, hf, hd, ha⟩)
    · exact ⟨[], command, rest, opcode, shown, rfl, hs, rfl, hf, hd, ha⟩
    · exact ⟨command :: earlier, other, later, opcode, shown, rfl, hs, rfl, hf, hd, ha⟩

/-- What holds of the instruction at the counter and of all that ran later holds of all that ran. -/
theorem forall_ran_cons {p : Machine → Instruction → Prop} {machine : Machine} {opcode : Opcode} {command : Command}
    {rest : List Command} (hf : machine.Fetches opcode)
    (hp : ∀ instruction, Instruction.decode? opcode = some instruction → p machine instruction)
    (hrest : ∀ before instruction outcome, (machine.perform command).machine.Ran rest before instruction outcome →
      p before instruction) :
    ∀ before instruction outcome, machine.Ran (command :: rest) before instruction outcome → p before instruction := by
  intro before instruction outcome hran
  rcases ran_cons.1 hran with ⟨-, rfl, other, shown, hother, hd, -⟩ | hran
  · rw [hother.unique hf] at hd
    exact hp instruction hd
  · exact hrest before instruction outcome hran

theorem Ran.append {machine before : Machine} {commands : List Command} {instruction : Instruction} {outcome : Outcome}
    (h : machine.Ran commands before instruction outcome) (others : List Command) :
    machine.Ran (commands ++ others) before instruction outcome := by
  obtain ⟨earlier, command, later, opcode, shown, rfl, h⟩ := h
  exact ⟨earlier, command, later ++ others, opcode, shown, List.append_assoc _ _ _, h⟩

/-- If something that instructions alone can change differs after a session, an instruction ran in it that changed
it. -/
theorem ran_of_change {α : Type} (f : Machine → α)
    (hf : ∀ (machine : Machine) counter keypad pending delay sound random,
      f { machine with counter, keypad, pending, delay, sound, random } = f machine)
    {machine : Machine} {commands : List Command} (hk : ∀ command ∈ commands, command.keepsProgram)
    (h : f (machine.after commands) ≠ f machine) :
    ∃ before instruction effect counter keypad pending, machine.Ran commands before instruction effect.outcome ∧
      { before with counter, keypad, pending }.execute instruction = .ok effect ∧
      f effect.machine ≠ f { before with counter, keypad, pending } := by
  obtain ⟨earlier, command, later, rfl, hne⟩ := exists_change f h
  have hkc := hk command (List.mem_append_right _ List.mem_cons_self)
  obtain ⟨_, _, _, _, _, _, hm⟩ | ⟨hs, opcode, instruction, effect, shown, hfetch, hd, he, ha, _, _, hm⟩ :=
    (machine.after earlier).perform_cases hkc
  · rw [hm, hf] at hne
    exact absurd rfl hne
  · obtain ⟨keypad, pending, hh⟩ := (machine.after earlier).heeded_eq command
    rw [hh] at he
    rw [hm] at hne
    have hran : machine.Ran (earlier ++ command :: later) (machine.after earlier) instruction effect.outcome :=
      ⟨earlier, command, later, opcode, shown, rfl, hs, rfl, hfetch, hd, ha⟩
    refine ⟨_, _, _, _, keypad, pending, hran, he, fun e => hne ?_⟩
    exact (hf effect.machine _ _ _ _ _ _).trans (e.trans (hf (machine.after earlier) _ _ _ _ _ _))

/-! ### Instructions without an effect -/

/-- An opcode without an instruction is passed over, and so is a routine. -/
theorem cycle_of_passed {machine : Machine} {opcode : Opcode} (hf : machine.Fetches opcode)
    (h : Instruction.decode? opcode = none ∨ ∃ nnn, Instruction.decode? opcode = some (.routine nnn)) :
    machine.cycle.machine = machine.advanced ∧ ∃ outcome, machine.cycle.answer = .ok outcome := by
  rcases h with h | ⟨nnn, h⟩
  · rw [cycle_of_fetches hf, dispatch_of_decode?_eq_none h]
    exact ⟨rfl, _, rfl⟩
  · rw [cycle_of_fetches hf, dispatch_of_execute_eq_ok h rfl]
    have hn : Advance.next.apply machine.advanced.counter = machine.advanced.counter :=
      Advance.apply_next_apply_skip machine.counter
    rw [Effect.settled, hn]
    exact ⟨rfl, _, rfl⟩

theorem decode?_routine {nnn : Address} (h₁ : nnn ≠ 0x0E0) (h₂ : nnn ≠ 0x0EE) :
    Instruction.decode? (Opcode.ofAddress 0x0 nnn) = some (.routine nnn) := by
  have hw₁ : Instruction.routine nnn ≠ .routine 0x0E0 := fun e => h₁ (Instruction.routine.inj e)
  have hw₂ : Instruction.routine nnn ≠ .routine 0x0EE := fun e => h₂ (Instruction.routine.inj e)
  have hd := Instruction.decode?_encode hw₁ hw₂
  exact hd

theorem elapse_eq_ite (machine : Machine) :
    machine.elapse = if machine.timing = .perStep then machine.tickTimers else machine := by
  unfold elapse
  split <;> simp [*]

theorem machine_perform_of_passed {machine : Machine} {command : Command} {opcode : Opcode} (hs : command.steps)
    (hf : machine.Fetches opcode)
    (h : (∀ instruction : Instruction, opcode ≠ instruction.encode) ∨
      ∃ nnn, nnn ≠ 0x0E0 ∧ nnn ≠ 0x0EE ∧ opcode = Opcode.ofAddress 0x0 nnn) :
    (machine.perform command).machine =
      { machine.heeded command with counter := .ofNat ((machine.counter.toNat + 2) % 4096) }.elapse := by
  have hd : Instruction.decode? opcode = none ∨ ∃ nnn, Instruction.decode? opcode = some (.routine nnn) := by
    rcases h with h | ⟨nnn, h₁, h₂, rfl⟩
    · exact .inl (Instruction.decode?_eq_none_iff.2 h)
    · exact .inr ⟨nnn, decode?_routine h₁ h₂⟩
  have hfetch : (machine.heeded command).Fetches opcode := fetches_heeded.2 hf
  obtain ⟨hm, outcome, ha⟩ := cycle_of_passed hfetch hd
  obtain ⟨keypad, pending, hh⟩ := machine.heeded_eq command
  rw [machine_perform_of_ok hs ha, hm, hh, ← counter_advanced]
  rfl

/-! ### The frame law -/

/-- Whatever differs after a session of steps and of commands about keys and timers, an instruction that completed in
it can have changed that: a cell of the memory, a register, the index, the stack or a pixel.  An opcode without an
instruction and a routine change nothing, beside the keys that the step takes in, the counter, and the timers if the
machine ticks them. -/
theorem frame_session (machine : Machine) :
    (∀ commands : List Command, (∀ command ∈ commands, command.keepsProgram) →
      (∀ a (_ : a < 4096), (machine.after commands).memory[a] ≠ machine.memory[a] →
        ∃ before instruction outcome, machine.Ran commands before instruction outcome ∧
          instruction.StoresTo before a) ∧
      (∀ k, (machine.after commands).register k ≠ machine.register k →
        ∃ before instruction outcome, machine.Ran commands before instruction outcome ∧
          instruction.Assigns k ∧ outcome ≠ .waiting) ∧
      ((machine.after commands).index ≠ machine.index →
        ∃ before instruction outcome, machine.Ran commands before instruction outcome ∧ instruction.MovesIndex) ∧
      ((machine.after commands).stack ≠ machine.stack →
        ∃ before instruction outcome, machine.Ran commands before instruction outcome ∧ instruction.MovesStack) ∧
      ∀ x y, (machine.after commands).screen.pixel x y ≠ machine.screen.pixel x y →
        ∃ before instruction outcome, machine.Ran commands before instruction outcome ∧ instruction.Draws) ∧
    ∀ command opcode, Command.steps command → machine.Fetches opcode →
      ((∀ instruction : Instruction, opcode ≠ instruction.encode) ∨
        ∃ nnn, nnn ≠ 0x0E0 ∧ nnn ≠ 0x0EE ∧ opcode = Opcode.ofAddress 0x0 nnn) →
      let passed := { machine.heeded command with counter := .ofNat ((machine.counter.toNat + 2) % 4096) }
      (machine.perform command).machine = if machine.timing = .perStep then passed.tickTimers else passed := by
  constructor
  · intro commands hk
    refine ⟨?_, ?_, ?_, ?_, ?_⟩
    · intro a ha hne
      obtain ⟨before, instruction, effect, _, _, _, hran, he, hchanged⟩ :=
        ran_of_change (fun machine => machine.memory[a]) (fun _ _ _ _ _ _ _ => rfl) hk hne
      exact ⟨before, instruction, _, hran, (framed_of_execute he).memory a ha hchanged⟩
    · intro k hne
      obtain ⟨before, instruction, effect, _, _, _, hran, he, hchanged⟩ :=
        ran_of_change (fun machine => machine.register k) (fun _ _ _ _ _ _ _ => rfl) hk hne
      exact ⟨before, instruction, _, hran, (framed_of_execute he).registers k hchanged⟩
    · intro hne
      obtain ⟨before, instruction, effect, _, _, _, hran, he, hchanged⟩ :=
        ran_of_change Machine.index (fun _ _ _ _ _ _ _ => rfl) hk hne
      exact ⟨before, instruction, _, hran, movesIndex_of_execute he hchanged⟩
    · intro hne
      obtain ⟨before, instruction, effect, _, _, _, hran, he, hchanged⟩ :=
        ran_of_change Machine.stack (fun _ _ _ _ _ _ _ => rfl) hk hne
      exact ⟨before, instruction, _, hran, movesStack_of_execute he hchanged⟩
    · intro x y hne
      obtain ⟨before, instruction, effect, _, _, _, hran, he, hchanged⟩ :=
        ran_of_change (fun machine => machine.screen.pixel x y) (fun _ _ _ _ _ _ _ => rfl) hk hne
      have hscreen : effect.machine.screen ≠ before.screen := fun e => hchanged (congrArg (·.pixel x y) e)
      exact ⟨before, instruction, _, hran, ((framed_of_execute he).screen hscreen).1⟩
  · intro command opcode hs hf h passed
    have ht : passed.timing = machine.timing := by
      obtain ⟨keypad, pending, hh⟩ := machine.heeded_eq command
      simp only [passed, hh]
    rw [machine_perform_of_passed hs hf h, elapse_eq_ite, ← ht]

/-- A register is set and then stored, and a routine is passed over by a tick that takes in a key event. -/
theorem frame_session_store :
    let storing := ((create .external {}).machine.perform (.load [0x60, 0x07, 0xF0, 0x55])).machine
    let passing := ((create .perStep {}).machine.perform (.load [0x01, 0x23])).machine
    ((storing.after [.step, .step]).memory[0] ≠ storing.memory[0] ∧
        ∃ before instruction outcome, storing.Ran [.step, .step] before instruction outcome ∧
          instruction.StoresTo before 0) ∧
      (passing.perform (.tick [⟨3, true⟩])).machine =
        { passing.heeded (.tick [⟨3, true⟩]) with counter := 0x202 }.tickTimers := by
  intro storing passing
  constructor
  · have hne : (storing.after [.step, .step]).memory[0] ≠ storing.memory[0] := by decide +kernel
    have hk : ∀ command ∈ [Command.step, .step], command.keepsProgram := by simp [Command.keepsProgram]
    exact ⟨hne, ((frame_session storing).1 _ hk).1 0 (by decide) hne⟩
  · have hf : passing.Fetches (Opcode.ofBytes 0x01 0x23) := fetches_load (by decide) _
    have ht : passing.timing = .perStep := by decide +kernel
    have hc : passing.counter = 0x200 := by decide +kernel
    clear_value passing
    have h := (frame_session passing).2 (.tick [⟨3, true⟩]) _ rfl hf (.inr ⟨0x123, by decide, by decide, rfl⟩)
    simp only [if_pos ht, hc] at h
    exact h

end Machine

end Chip8
