import Chip8.Machine.Writes
import Chip8.Proofs.Answers

/-!
# Failed commands

A command made write by write ends like the command made at once (`Writes.run_perform`): an instruction that fails
does so before its first write (`Writes.run_execute`), and its step then puts back the counter, the only thing that had
moved (`Writes.run_cycle`).
-/

namespace Chip8

namespace Writes

/-! ### Instructions -/

theorem run_check {α : Type} (reading : Machine → Except Fault α) (machine : Machine) :
    (check reading).run machine =
      match reading machine with
      | .ok value => .ok value machine
      | .error fault => .error fault machine := by
  simp only [check, EStateM.run_bind, EStateM.run_get]
  cases reading machine <;> rfl

theorem run_draw (x y : Register) (n : Nat) (machine : Machine) :
    (draw x y n).run machine =
      match machine.drawSprite x y n with
      | .ok drawn => .ok () drawn
      | .error fault => .error fault machine := by
  simp only [draw, EStateM.run_bind, run_check, Machine.drawSprite]
  cases machine.memory.read machine.index.toNat n with
  | error fault => rfl
  | ok bytes => simp [Except.map, Machine.setRegister]

/-- An instruction fails before its first write. -/
theorem run_execute (instruction : Instruction) (machine : Machine) :
    (execute instruction).run machine =
      match machine.execute instruction with
      | .ok effect => .ok (effect.advance, effect.outcome) effect.machine
      | .error fault => .error fault machine := by
  cases instruction
  case ret =>
    simp only [execute, pop, EStateM.run_bind, EStateM.run_get, Machine.execute]
    cases machine.stack <;> rfl
  case call nnn =>
    simp only [execute, push, EStateM.run_bind, EStateM.run_get, Machine.execute]
    by_cases h : machine.stack.length < Machine.stackCapacity
    · simp [h]
    · simp [h]
  case draw x y n =>
    simp only [execute, EStateM.run_bind, run_draw, Machine.execute]
    cases machine.drawSprite x y n.val <;> rfl
  case storeDecimal x =>
    simp only [execute, EStateM.run_bind, run_check, Machine.execute]
    cases machine.memory.store machine.index.toNat (Machine.decimalDigits (machine.register x)) <;> rfl
  case storeRegisters x =>
    simp only [execute, EStateM.run_bind, run_check, Machine.execute]
    cases machine.memory.store machine.index.toNat (machine.registers.toList.take (x.val + 1)) <;> rfl
  case loadRegisters x =>
    simp only [execute, EStateM.run_bind, run_check, Machine.execute]
    cases machine.memory.read machine.index.toNat (x.val + 1) <;> rfl
  all_goals rfl

/-! ### Steps -/

theorem run_move (advance : Advance) (machine : Machine) :
    (move advance).run machine = .ok () { machine with counter := advance.apply machine.counter } := rfl

/-- A cycle that fails leaves nothing behind but a counter that may have moved. -/
theorem run_cycle (machine : Machine) :
    (∀ outcome, machine.cycle.answer = .ok outcome → cycle.run machine = .ok outcome machine.cycle.machine) ∧
      ∀ fault, machine.cycle.answer = .error fault →
        ∃ counter, cycle.run machine = .error fault { machine with counter } := by
  have hc := machine.cycle_cases
  generalize machine.cycle = report at hc
  cases hc with
  | outside h =>
    constructor
    · intro outcome ha
      cases ha
    · intro fault ha
      cases ha
      -- the fetch failed, and nothing has moved
      refine ⟨machine.counter, ?_⟩
      simp only [cycle, EStateM.run_bind, run_check, Machine.read_of_le h]
  | unsupported fetches decodes =>
    constructor
    · intro outcome ha
      cases ha
      simp only [cycle, EStateM.run_bind, run_check, Machine.read_of_fetches fetches, decodes]
      rfl
    · intro fault ha
      cases ha
  | failed fetches decodes executes =>
    unfold Machine.advanced at executes
    constructor
    · intro outcome ha
      cases ha
    · intro fault ha
      cases ha
      -- the instruction failed, and the counter stands behind it
      refine ⟨machine.advanced.counter, ?_⟩
      simp only [cycle, EStateM.run_bind, run_check, Machine.read_of_fetches fetches, run_move, decodes, run_execute,
        executes]
      rfl
  | completed fetches decodes executes =>
    unfold Machine.advanced at executes
    constructor
    · intro outcome ha
      cases ha
      simp only [cycle, EStateM.run_bind, run_check, Machine.read_of_fetches fetches, run_move, decodes, run_execute,
        executes]
      rfl
    · intro fault ha
      cases ha

theorem run_tryCatch {α : Type} (body : Writes α) (handler : Fault → Writes α) (machine : Machine) :
    (tryCatch body handler).run machine =
      match body.run machine with
      | .ok value after => .ok value after
      | .error fault after => (handler fault).run after := by
  change EStateM.tryCatch body handler machine = _
  delta EStateM.tryCatch EStateM.run
  cases body machine <;> rfl

theorem run_step (machine : Machine) :
    step.run machine =
      match machine.step.answer with
      | .ok outcome => .ok outcome machine.step.machine
      | .error fault => .error fault machine.applyPending := by
  obtain ⟨hok, herror⟩ := run_cycle machine.applyPending
  simp only [step, EStateM.run_bind, EStateM.run_modify, EStateM.run_get, run_tryCatch, Machine.step]
  cases ha : machine.applyPending.cycle.answer with
  | ok outcome =>
    rw [hok outcome ha]
    rfl
  | error fault =>
    obtain ⟨counter, hrun⟩ := herror fault ha
    rw [hrun]
    -- the handler writes the counter of before, wherever it stands now
    rfl

theorem run_tick (events : List KeyEvent) (machine : Machine) :
    (tick events).run machine = step.run { machine with keypad := machine.keypad.heedAll events } := rfl

end Writes

namespace Machine

theorem machine_step_of_error {machine : Machine} {fault : Fault} (h : machine.step.answer = .error fault) :
    machine.step.machine = machine.applyPending := by
  have ha : machine.applyPending.cycle.answer = .error fault := h
  simp only [step, ha]
  exact machine_cycle_of_error ha

/-! ### Commands -/

theorem machine_loadReport_of_failed {machine : Machine} {program : List UInt8} {fault : Fault}
    (h : (machine.loadReport program).answer = .failed fault) : (machine.loadReport program).machine = machine := by
  obtain ⟨hl, -⟩ := answer_loadReport_eq_failed_iff.1 h
  rw [loadReport_of_lt hl]

/-- A command that fails took in its key events and did nothing else. -/
theorem machine_perform_of_failed {machine : Machine} {command : Command} {fault : Fault}
    (h : (machine.perform command).answer = .failed fault) :
    (machine.perform command).machine = machine.heeded command := by
  by_cases hs : command.steps
  · exact machine_perform_of_error hs (answer_cycle_of_failed hs h)
  · cases command with
    | step | tick _ => exact absurd rfl hs
    | setKey event =>
      simp only [perform] at h ⊢
      cases ha : machine.keypad.apply event with
      | ok keypad => simp [ha] at h
      | error fault => rfl
    | load program => exact machine_loadReport_of_failed h
    | loadRom rom =>
      have hl : (machine.loadReport rom.bytes).answer = .failed fault := h
      exact machine_loadReport_of_failed hl
    | tickTimers | setKeys _ | enqueue _ | reset | supply _ => cases h

end Machine

namespace Writes

/-- The end of a report, in the form that writes have it. -/
def ending (report : Report Reply) : EStateM.Result Fault Machine Reply :=
  match report.answer with
  | .failed fault => .error fault report.machine
  | reply => .ok reply report.machine

theorem ending_toReply (report : Report (Except Fault Outcome)) (shown : Option Screen) :
    ending (report.toReply shown) =
      match report.answer with
      | .ok outcome => .ok (.stepped outcome shown) report.machine
      | .error fault => .error fault report.machine := by
  unfold Report.toReply
  cases report.answer <;> rfl

theorem run_load (program : List UInt8) (machine : Machine) :
    (load program >>= fun _ => pure Reply.done).run machine = ending (machine.loadReport program) := by
  by_cases h : program.length ≤ Memory.programCapacity
  · rw [Machine.loadReport_of_le h, load, if_neg (Nat.not_lt.2 h)]
    rfl
  · rw [Machine.loadReport_of_lt (Nat.not_le.1 h), load, if_pos (Nat.not_le.1 h)]
    rfl

theorem run_perform (command : Command) (machine : Machine) :
    (perform command).run machine = ending (machine.perform command) := by
  cases command with
  | step =>
    simp only [perform, EStateM.run_bind, run_step, Machine.perform, ending_toReply]
    cases ha : machine.step.answer with
    | ok outcome => rfl
    | error fault => rw [Machine.machine_step_of_error ha]
  | tick events =>
    have hm : (machine.tick events).machine = { machine with keypad := machine.keypad.heedAll events }.step.machine :=
      rfl
    have ha : (machine.tick events).answer = { machine with keypad := machine.keypad.heedAll events }.step.answer :=
      rfl
    simp only [perform, EStateM.run_bind, run_tick, run_step, Machine.perform, ending_toReply, Report.shown, hm, ha]
    generalize { machine with keypad := machine.keypad.heedAll events } = polled at *
    cases hs : polled.step.answer with
    | ok outcome => cases outcome <;> rfl
    | error fault => rw [Machine.machine_step_of_error hs]
  | setKey event =>
    simp only [perform, setKey, EStateM.run_bind, run_check, Machine.perform, Keypad.apply]
    cases event.target? <;> rfl
  | load program => exact run_load program machine
  | loadRom rom => exact run_load rom.bytes machine
  | tickTimers | setKeys _ | enqueue _ | reset | supply _ => rfl

theorem run_perform_eq_error_iff {command : Command} {machine left : Machine} {fault : Fault} :
    (perform command).run machine = .error fault left ↔
      (machine.perform command).answer = .failed fault ∧ left = (machine.perform command).machine := by
  rw [run_perform, ending]
  split
  · rename_i reason h
    rw [h, EStateM.Result.error.injEq, Reply.failed.injEq, eq_comm (a := left)]
  · rename_i h
    constructor
    · intro hr
      cases hr
    · intro ha
      exact absurd ha.1 (h fault)

end Writes

namespace Machine

/-- A command that fails has taken in its key events and done nothing else, also where it is made write by write.
Loading and writing a key take in none. -/
theorem failure_atomic (machine : Machine) :
    (∀ command fault, (machine.perform command).answer = .failed fault →
        (machine.perform command).machine = machine.heeded command) ∧
      (∀ command fault left, (Writes.perform command).run machine = .error fault left ↔
        (machine.perform command).answer = .failed fault ∧ left = machine.heeded command) ∧
      (∀ program fault, (machine.perform (.load program)).answer = .failed fault ↔
        3584 < program.length ∧ fault = .programTooLarge program.length 3584) ∧
      (∀ rom fault, (machine.perform (.loadRom rom)).answer = .failed fault ↔
        3584 < rom.bytes.length ∧ fault = .programTooLarge rom.bytes.length 3584) ∧
      ∀ event fault, (machine.perform (.setKey event)).answer = .failed fault ↔
        16 ≤ event.key ∧ fault = .invalidKey event.key := by
  refine ⟨?_, ?_, ?_, ?_, ?_⟩
  · intro command fault h
    exact machine_perform_of_failed h
  · intro command fault left
    rw [Writes.run_perform_eq_error_iff]
    constructor
    · rintro ⟨h, rfl⟩
      exact ⟨h, machine_perform_of_failed h⟩
    · rintro ⟨h, rfl⟩
      exact ⟨h, (machine_perform_of_failed h).symm⟩
  · intro program fault
    exact answer_loadReport_eq_failed_iff
  · intro rom fault
    exact answer_loadReport_eq_failed_iff
  · intro event fault
    exact answer_setKey_eq_failed_iff

/-- A program that begins with a return, and a key event before it is run. -/
theorem failure_atomic_ret :
    (((create .perStep {}).machine.after [.load [0x00, 0xEE], .enqueue [⟨3, true⟩]]).perform .step).answer =
        .failed .stackEmpty ∧
      (((create .perStep {}).machine.after [.load [0x00, 0xEE], .enqueue [⟨3, true⟩]]).perform .step).machine =
        ((create .perStep {}).machine.after [.load [0x00, 0xEE], .enqueue [⟨3, true⟩]]).applyPending := by
  have hf := fetches_load (show [0x00, 0xEE].length ≤ Memory.programCapacity by decide) (create .perStep {}).machine
  have h : (((create .perStep {}).machine.after [.load [0x00, 0xEE], .enqueue [⟨3, true⟩]]).perform .step).answer =
      .failed .stackEmpty := answer_perform_of_error rfl (answer_cycle_of_fails (.ret rfl) (hf.of_eq rfl rfl))
  exact ⟨h, (failure_atomic _).1 .step .stackEmpty h⟩

end Machine

end Chip8
