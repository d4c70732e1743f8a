import Chip8.Proofs.Answers
import Chip8.Proofs.Peripherals
import Chip8.Proofs.Presentation
import Chip8.Proofs.WaitState

/-!
# Faults that stay

A step that fails leaves the program where it was, and it fails with any other peripherals too
(`Machine.answer_cycle_attach_of_error`).  So every command keeps such a machine as it is, but for the peripherals
that the host writes to (`Machine.exists_perform_attach`), and each further step fails with the same fault, until the
machine is put back in its reset state.
-/

namespace Chip8

/-- Whether the command is the tick that a host gives to the timers. -/
def Command.ticksTimers : Command → Bool
  | tickTimers => true
  | _ => false

/-- No instruction has changed the peripherals and no press is awaited.  The timers were ticked by the host, so many
times. -/
structure Peripherals.Idle (before after : Peripherals) (ticks : Nat) : Prop where
  random_eq : after.random = before.random
  wait_eq : after.keypad.wait = none
  delay_eq : after.delay.value.toNat = before.delay.value.toNat - ticks
  sound_eq : after.sound.value.toNat = before.sound.value.toNat - ticks

namespace Machine

/-! ### Faults of a cycle -/

/-- What fails does so without a look at the peripherals. -/
theorem seesSame_of_fails {machine : Machine} {instruction : Instruction} {fault : Fault}
    (h : Fails machine instruction fault) (first second : Peripherals) : instruction.SeesSame first second := by
  cases h <;> trivial

theorem answer_cycle_attach_of_error {machine : Machine} {fault : Fault} (h : machine.cycle.answer = .error fault)
    (other : Peripherals) : (machine.attach other).cycle.answer = .error fault := by
  have hsees : ∀ opcode instruction, machine.Fetches opcode → Instruction.decode? opcode = some instruction →
      instruction.SeesSame machine.peripherals other := by
    intro opcode instruction hf hd
    rw [cycle_of_fetches hf] at h
    cases he : machine.advanced.execute instruction with
    | error reason => exact seesSame_of_fails (execute_eq_error_iff.1 he) _ _
    | ok effect =>
      rw [dispatch_of_execute_eq_ok hd he] at h
      cases h
  obtain ⟨later, hcycle, -⟩ := machine.cycle_attach hsees
  rw [hcycle]
  exact h

/-- A machine that waits does not fail. -/
theorem WaitsInPlace.wait_eq_none_of_error {machine : Machine} {fault : Fault} (h : machine.WaitsInPlace)
    (he : machine.cycle.answer = .error fault) : machine.keypad.wait = none := by
  rw [← Keypad.awaiting_eq_false_iff, Bool.eq_false_iff]
  intro hw
  obtain ⟨x, hf⟩ := h hw
  rcases cycle_of_fetches_awaitKey hf with ⟨ha, -⟩ | ⟨ha, -⟩
  · rw [ha] at he
    cases he
  · rw [ha] at he
    cases he

/-! ### Commands -/

section Commands

variable {machine : Machine} {now : Peripherals} {command : Command} {ticks : Nat}

theorem exists_heeded_attach (h : machine.peripherals.Idle now ticks) (command : Command) :
    ∃ later, (machine.attach now).heeded command = machine.attach later ∧ machine.peripherals.Idle later ticks := by
  have hw : ((machine.attach now).heeded command).keypad.wait = none := wait_heeded_eq_none h.wait_eq command
  obtain ⟨keypad, pending, hh⟩ := (machine.attach now).heeded_eq command
  rw [hh] at hw ⊢
  exact ⟨{ now with keypad, pending }, rfl, h.random_eq, hw, h.delay_eq, h.sound_eq⟩

variable {fault : Fault} (he : machine.cycle.answer = .error fault)

include he

/-- Each step fails with the same fault, whatever has become of the peripherals. -/
theorem answer_perform_attach (hs : command.steps) (now : Peripherals) :
    ((machine.attach now).perform command).answer = .failed fault := by
  obtain ⟨keypad, pending, hh⟩ := (machine.attach now).heeded_eq command
  apply answer_perform_of_error hs
  rw [hh]
  exact answer_cycle_attach_of_error he { now with keypad, pending }

theorem frame?_perform_attach (hr : ¬command.restarts) (now : Peripherals) :
    ((machine.attach now).perform command).answer.frame? = none := by
  cases command with
  | step | tick events =>
    rw [answer_perform_attach he rfl]
    rfl
  | setKey event =>
    rw [perform]
    cases (machine.attach now).keypad.apply event <;> rfl
  | load program | loadRom rom =>
    rw [perform, loadReport_of_lt (by simpa [Command.restarts] using hr)]
    rfl
  | tickTimers | setKeys _ | enqueue _ | reset | supply _ => rfl

/-- A command leaves nothing behind but other peripherals. -/
theorem exists_perform_attach (h : machine.peripherals.Idle now ticks) (hr : ¬command.restarts)
    (hrandom : ∀ random, command ≠ .supply random) :
    ∃ later, ((machine.attach now).perform command).machine = machine.attach later ∧
      machine.peripherals.Idle later (ticks + [command].countP Command.ticksTimers) := by
  cases command with
  | step | tick events =>
    -- the step fails, and has taken in its key events
    obtain ⟨later, hh, hlater⟩ := exists_heeded_attach h _
    refine ⟨later, ?_, hlater⟩
    rw [machine_perform_of_error rfl, hh]
    rw [hh]
    exact answer_cycle_attach_of_error he later
  | tickTimers =>
    refine ⟨{ now with delay := now.delay.tick, sound := now.sound.tick }, rfl, h.random_eq, h.wait_eq, ?_, ?_⟩
    · rw [Timer.toNat_tick, h.delay_eq]
      rfl
    · rw [Timer.toNat_tick, h.sound_eq]
      rfl
  | setKey event =>
    rw [machine_perform_setKey]
    exact ⟨{ now with keypad := now.keypad.heed event }, rfl, h.random_eq, Keypad.wait_heed_eq_none h.wait_eq event,
      h.delay_eq, h.sound_eq⟩
  | setKeys down =>
    exact ⟨{ now with keypad := now.keypad.setAll down }, rfl, h.random_eq,
      Keypad.wait_setAll_eq_none h.wait_eq down, h.delay_eq, h.sound_eq⟩
  | enqueue events =>
    exact ⟨{ now with pending := now.pending ++ events }, rfl, h.random_eq, h.wait_eq, h.delay_eq, h.sound_eq⟩
  | load program | loadRom rom =>
    rw [machine_perform_of_refused hr Bool.false_ne_true]
    exact ⟨now, rfl, h⟩
  | reset => exact absurd rfl hr
  | supply random => exact absurd rfl (hrandom random)

end Commands

/-! ### Sessions -/

theorem exists_after_attach {machine : Machine} {fault : Fault} (he : machine.cycle.answer = .error fault)
    (hw : machine.keypad.wait = none) {commands : List Command} (hr : ∀ command ∈ commands, ¬command.restarts)
    (hrandom : ∀ random, .supply random ∉ commands) :
    machine.frames commands = [] ∧
      ∃ later, machine.after commands = machine.attach later ∧
        machine.peripherals.Idle later (commands.countP Command.ticksTimers) := by
  induction commands using List.reverseRecOn with
  | nil => exact ⟨rfl, machine.peripherals, rfl, rfl, hw, rfl, rfl⟩
  | append_singleton commands command ih =>
    simp only [List.mem_append, List.mem_singleton, not_or] at hr hrandom
    obtain ⟨hframes, now, hafter, hnow⟩ := ih (fun other ho => hr other (.inl ho)) fun random => (hrandom random).1
    have hlast := hr command (.inr rfl)
    have hperform := exists_perform_attach he hnow hlast fun random => Ne.symm (hrandom random).2
    rw [frames_append, frames_cons, hframes, hafter, frame?_perform_attach he hlast, after_append, hafter,
      List.countP_append]
    exact ⟨rfl, hperform⟩

/-- A machine whose step fails is stuck.  In every session in which it is not put back in its reset state, by a reset
or by a load that is not refused, and gets no new random bytes, each step and each tick fails with the same fault and no
frame is shown.  The program's own state never changes, nor do the random bytes; the timers move with the ticks of the
host alone, and no press is awaited or flagged. -/
theorem fault_session {machine : Machine} {fault : Fault} (h : machine.Reachable)
    (hf : machine.step.answer = .error fault) {commands : List Command}
    (hr : ∀ command ∈ commands, ¬command.restarts) (hrandom : ∀ random, .supply random ∉ commands) :
    let later := machine.after commands
    (∀ command, Command.steps command → (later.perform command).answer = .failed fault) ∧
      machine.frames commands = [] ∧
      (later.counter = machine.counter ∧ later.index = machine.index ∧ later.registers = machine.registers ∧
        later.memory = machine.memory ∧ later.stack = machine.stack ∧ later.screen = machine.screen ∧
        later.random = machine.random) ∧
      (later.delay.value.toNat = machine.delay.value.toNat - commands.countP Command.ticksTimers ∧
        later.sound.value.toNat = machine.sound.value.toNat - commands.countP Command.ticksTimers) ∧
      later.keypad.awaiting = false ∧ later.keypad.flagged = 0 := by
  have hheeded : machine.applyPending.cycle.answer = .error fault := hf
  -- the pending events have no part in it
  have he : machine.cycle.answer = .error fault := answer_cycle_attach_of_error hheeded machine.peripherals
  have hw := h.waitsInPlace.wait_eq_none_of_error he
  obtain ⟨hframes, now, hafter, hnow⟩ := exists_after_attach he hw hr hrandom
  intro later
  have hlater : later = machine.attach now := hafter
  rw [hlater]
  refine ⟨fun command hs => answer_perform_attach he hs now, hframes, ⟨rfl, rfl, rfl, rfl, rfl, rfl, hnow.random_eq⟩,
    ⟨hnow.delay_eq, hnow.sound_eq⟩, ?_, ?_⟩
  · exact Keypad.awaiting_eq_false_iff.2 hnow.wait_eq
  · have hwait : (machine.attach now).keypad.wait = none := hnow.wait_eq
    rw [Keypad.flagged, hwait, Option.getD_none]

/-- A program that begins with a return, and a session with a tick of the timers, a press and a load that is refused. -/
theorem fault_session_ret :
    let machine := ((create .perStep {}).machine.perform (.load [0x00, 0xEE])).machine
    let large : List UInt8 := List.replicate 3585 0
    let commands : List Command := [.step, .tickTimers, .tick [⟨3, true⟩], .load large]
    machine.step.answer = .error .stackEmpty ∧
      ((machine.after commands).perform .step).answer = .failed .stackEmpty ∧
      (machine.after commands).counter = machine.counter ∧
      (machine.after commands).delay.value.toNat = machine.delay.value.toNat - 1 := by
  intro machine large commands
  have hlarge : Memory.programCapacity < large.length := by
    rw [List.length_replicate]
    decide
  clear_value large
  have hp : ([0x00, 0xEE] : List UInt8).length ≤ Memory.programCapacity := by decide
  have hreach : machine.Reachable := .perform _ (.create _ _)
  have hfetch : machine.Fetches Instruction.ret.encode := fetches_load hp (create .perStep {}).machine
  have hstack : machine.stack = [] := congrArg Machine.stack (machine_perform_load hp (create .perStep {}).machine)
  clear_value machine
  have hheeded : machine.applyPending.Fetches Instruction.ret.encode := hfetch.of_eq rfl rfl
  have hf : machine.step.answer = .error .stackEmpty := answer_cycle_of_fails (.ret hstack) hheeded
  have hr : ∀ command ∈ commands, ¬command.restarts := by
    simpa [commands, Command.restarts] using hlarge
  have hrandom : ∀ random, .supply random ∉ commands := by simp [commands]
  obtain ⟨hsteps, -, ⟨hcounter, -⟩, ⟨hdelay, -⟩, -⟩ := fault_session hreach hf hr hrandom
  exact ⟨hf, hsteps .step rfl, hcounter, hdelay⟩

end Machine

end Chip8
