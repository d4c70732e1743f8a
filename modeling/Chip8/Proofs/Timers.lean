import Chip8.Proofs.Faults
import Chip8.Proofs.Pacing

/-!
# What the timers show

A timer shows the value that an instruction gave it last, less the ticks since then, and never less than zero.
`Machine.ticks` counts the ticks of a session: those of the host, and those of the steps that complete if the machine
ticks its timers itself.  One command takes its own ticks off what its instruction leaves in the timer
(`Machine.timer_perform_of_sets`, `Machine.timer_perform_of_not_sets`), a session those of all its commands.

The laws are the same for both timers, so they are stated for any `Clock`.
-/

namespace Chip8

/-- The timers of a machine. -/
inductive Clock where
  | delay
  | sound
  deriving DecidableEq, Repr

/-- The instruction that sets the timer to a register. -/
def Clock.setter (x : Register) : Clock → Instruction
  | delay => .setDelay x
  | sound => .setSound x

/-- The opcode of the instruction that sets the timer to a register. -/
def Clock.opcode (x : Register) : Clock → Opcode
  | delay => Opcode.ofByte 0xF x 0x15
  | sound => Opcode.ofByte 0xF x 0x18

/-- The reply tells that a step was completed. -/
def Reply.completes : Reply → Bool
  | stepped .. => true
  | _ => false

theorem Clock.opcode_eq_encode (clock : Clock) (x : Register) : clock.opcode x = (clock.setter x).encode := by
  cases clock <;> rfl

theorem Clock.decode?_opcode (clock : Clock) (x : Register) :
    Instruction.decode? (clock.opcode x) = some (clock.setter x) := by
  rw [opcode_eq_encode]
  apply Instruction.decode?_encode_of_ne
  cases clock <;> exact fun _ => Instruction.noConfusion

namespace Machine

def timer (machine : Machine) : Clock → Timer
  | .delay => machine.delay
  | .sound => machine.sound

/-- The ticks of the timers in a session. -/
def ticks (machine : Machine) (commands : List Command) : Nat :=
  commands.countP Command.ticksTimers +
    match machine.timing with
    | .perStep => (machine.performAll commands).countP fun report => report.answer.completes
    | .external => 0

/-- The command runs the instruction that sets the timer, and finds the value in its register. -/
def Sets (machine : Machine) (clock : Clock) (command : Command) (value : UInt8) : Prop :=
  command.steps ∧ ∃ x, machine.Fetches (clock.opcode x) ∧ machine.register x = value

/-- No command of the session sets the timer. -/
def LeavesAlone (machine : Machine) (clock : Clock) : List Command → Prop
  | [] => True
  | command :: rest =>
    (∀ value, ¬machine.Sets clock command value) ∧ (machine.perform command).machine.LeavesAlone clock rest

/-! ### Counting ticks -/

theorem ticks_cons (machine : Machine) (command : Command) (rest : List Command) :
    machine.ticks (command :: rest) = machine.ticks [command] + (machine.perform command).machine.ticks rest := by
  have htiming := machine.timing_perform command
  unfold ticks
  rw [htiming]
  cases machine.timing with
  | perStep =>
    simp only [performAll, List.countP_cons, List.countP_nil]
    omega
  | external =>
    simp only [List.countP_cons, List.countP_nil]
    omega

theorem ticks_of_external {machine : Machine} (h : machine.timing = .external) (commands : List Command) :
    machine.ticks commands = commands.countP Command.ticksTimers := by
  rw [ticks, h, Nat.add_zero]

theorem completes_loadReport (machine : Machine) (program : List UInt8) :
    (machine.loadReport program).answer.completes = false := by
  by_cases h : program.length ≤ Memory.programCapacity
  · rw [loadReport_of_le h]
    rfl
  · rw [loadReport_of_lt (Nat.not_le.1 h)]
    rfl

/-- Beside the steps, the host's own ticks count and nothing else. -/
theorem ticks_of_not_steps {command : Command} (hs : ¬command.steps) (machine : Machine) :
    machine.ticks [command] = if command.ticksTimers then 1 else 0 := by
  have hcompletes : (machine.perform command).answer.completes = false := by
    cases command with
    | step | tick _ => exact absurd rfl hs
    | setKey event =>
      rw [perform]
      cases machine.keypad.apply event <;> rfl
    | load program => exact machine.completes_loadReport program
    | loadRom rom => exact machine.completes_loadReport rom.bytes
    | tickTimers | setKeys _ | enqueue _ | reset | supply _ => rfl
  rw [ticks, List.countP_singleton]
  cases machine.timing with
  | perStep => simp [performAll, hcompletes]
  | external => rfl

section Steps

variable {machine : Machine} {command : Command} (hs : command.steps)

include hs

theorem ticksTimers_of_steps : command.ticksTimers = false := by
  cases command with
  | step | tick _ => rfl
  | _ => cases hs

/-- A step that completes counts, whatever its outcome. -/
theorem ticks_of_stepped {outcome : Outcome} {shown : Option Screen}
    (h : (machine.perform command).answer = .stepped outcome shown) :
    machine.ticks [command] = if machine.timing = .perStep then 1 else 0 := by
  rw [ticks, List.countP_singleton, ticksTimers_of_steps hs]
  cases machine.timing with
  | perStep => simp [performAll, h, Reply.completes]
  | external => rfl

/-- A step that fails does not count. -/
theorem ticks_of_failed {fault : Fault} (h : (machine.perform command).answer = .failed fault) :
    machine.ticks [command] = 0 := by
  rw [ticks, List.countP_singleton, ticksTimers_of_steps hs]
  cases machine.timing with
  | perStep => simp [performAll, h, Reply.completes]
  | external => rfl

end Steps

/-! ### Instructions -/

theorem timer_heeded (machine : Machine) (clock : Clock) (command : Command) :
    (machine.heeded command).timer clock = machine.timer clock := by
  cases command <;> cases clock <;> rfl

/-- The instruction that sets the timer never fails. -/
theorem cycle_of_setter {machine : Machine} {clock : Clock} {x : Register} (hf : machine.Fetches (clock.opcode x)) :
    machine.cycle.machine.timer clock = { value := machine.register x } ∧ machine.cycle.answer = .ok .plain := by
  have hd := clock.decode?_opcode x
  cases clock with
  | delay | sound =>
    rw [cycle_of_fetches hf, dispatch_of_execute_eq_ok hd rfl]
    exact ⟨rfl, rfl⟩

/-- No other instruction writes to the timer. -/
theorem timer_cycle {machine : Machine} {clock : Clock} (h : ∀ x, ¬machine.Fetches (clock.opcode x)) :
    machine.cycle.machine.timer clock = machine.timer clock := by
  have hc := machine.cycle_cases
  generalize machine.cycle = report at hc
  cases hc with
  | outside | unsupported | failed => cases clock <;> rfl
  | @completed opcode instruction effect fetches decodes executes =>
    have hne : ∀ x, instruction ≠ clock.setter x := by
      rintro x rfl
      apply h x
      rw [clock.opcode_eq_encode, Instruction.encode_of_decode? decodes]
      exact fetches
    have hmachine := machine_of_execute executes
    cases clock with
    | delay =>
      have hdelay : effect.machine.delay = machine.advanced.delayAfter instruction := by rw [hmachine]
      refine hdelay.trans ?_
      cases instruction
      case setDelay x => exact absurd rfl (hne x)
      all_goals rfl
    | sound =>
      have hsound : effect.machine.sound = machine.advanced.soundAfter instruction := by rw [hmachine]
      refine hsound.trans ?_
      cases instruction
      case setSound x => exact absurd rfl (hne x)
      all_goals rfl

/-! ### Commands -/

theorem toNat_timer_tickTimers (machine : Machine) (clock : Clock) :
    (machine.tickTimers.timer clock).value.toNat = (machine.timer clock).value.toNat - 1 := by
  cases clock <;> exact Timer.toNat_tick _

/-- A step takes its tick off what its instruction leaves in the timer. -/
theorem timer_perform_of_steps {machine : Machine} {command : Command} (hs : command.steps) (clock : Clock) :
    ((machine.perform command).machine.timer clock).value.toNat =
      ((machine.heeded command).cycle.machine.timer clock).value.toNat - machine.ticks [command] := by
  cases ha : (machine.heeded command).cycle.answer with
  | ok outcome =>
    obtain ⟨shown, hanswer, -⟩ := answer_perform_of_ok hs ha
    rw [machine_perform_of_ok hs ha, ticks_of_stepped hs hanswer, elapse_eq_ite, timing_cycle, timing_heeded]
    split
    · exact toNat_timer_tickTimers _ clock
    · rfl
  | error fault =>
    have hanswer := answer_perform_of_error hs ha
    rw [machine_perform_of_error hs ha, ticks_of_failed hs hanswer, machine_cycle_of_error ha]
    rfl

theorem timer_perform_of_sets {machine : Machine} {clock : Clock} {command : Command} {value : UInt8}
    (h : machine.Sets clock command value) :
    ((machine.perform command).machine.timer clock).value.toNat = value.toNat - machine.ticks [command] := by
  obtain ⟨hs, x, hf, rfl⟩ := h
  have hfetch : (machine.heeded command).Fetches (clock.opcode x) := fetches_heeded.2 hf
  rw [timer_perform_of_steps hs, (cycle_of_setter hfetch).1, register_heeded]

theorem timer_perform_of_not_sets {machine : Machine} {clock : Clock} {command : Command} (hr : ¬command.restarts)
    (h : ∀ value, ¬machine.Sets clock command value) :
    ((machine.perform command).machine.timer clock).value.toNat =
      (machine.timer clock).value.toNat - machine.ticks [command] := by
  by_cases hs : command.steps
  · have hf : ∀ x, ¬(machine.heeded command).Fetches (clock.opcode x) :=
      fun x hf => h _ ⟨hs, x, fetches_heeded.1 hf, rfl⟩
    rw [timer_perform_of_steps hs, timer_cycle hf, timer_heeded]
  · rw [ticks_of_not_steps hs]
    cases command with
    | step | tick _ => exact absurd rfl hs
    | tickTimers => exact toNat_timer_tickTimers machine clock
    | setKey event =>
      rw [machine_perform_setKey]
      cases clock <;> rfl
    | load _ | loadRom _ | reset =>
      rw [machine_perform_of_refused hr Bool.false_ne_true]
      rfl
    | setKeys _ | enqueue _ | supply _ => cases clock <;> rfl

/-- An instruction that reads the delay timer does so before the tick of its own step. -/
theorem perform_readDelay {machine : Machine} {command : Command} {x : Register} (hs : command.steps)
    (hf : machine.Fetches (Opcode.ofByte 0xF x 0x07)) :
    (machine.perform command).answer = .stepped .plain none ∧
      (machine.perform command).machine.register x = machine.delay.value := by
  have hd : Instruction.decode? (Instruction.readDelay x).encode = some (.readDelay x) :=
    Instruction.decode?_encode_of_ne fun _ => Instruction.noConfusion
  have he : (machine.heeded command).advanced.execute (.readDelay x) = .ok _ := rfl
  have hdelay : (machine.heeded command).delay = machine.delay := machine.timer_heeded .delay command
  refine ⟨answer_perform_of_execute hf hd he hs Outcome.noConfusion, ?_⟩
  rw [machine_perform_of_execute hf hd he hs, register, registers_elapse, ← hdelay]
  exact (register_setRegister _ x x _).trans (if_pos rfl)

/-! ### Sessions -/

/-- As long as nothing sets the timer, it runs down. -/
theorem timer_after_of_leavesAlone {machine : Machine} {clock : Clock} {commands : List Command}
    (hr : ∀ command ∈ commands, ¬command.restarts) (h : machine.LeavesAlone clock commands) :
    ((machine.after commands).timer clock).value.toNat =
      (machine.timer clock).value.toNat - machine.ticks commands := by
  induction commands generalizing machine with
  | nil =>
    have hnone : machine.ticks [] = 0 := by
      rw [ticks]
      cases machine.timing <;> rfl
    rw [hnone]
    rfl
  | cons command rest ih =>
    obtain ⟨hfirst, hrest⟩ := List.forall_mem_cons.1 hr
    change (((machine.perform command).machine.after rest).timer clock).value.toNat = _
    rw [ih hrest h.2, timer_perform_of_not_sets hfirst h.1, machine.ticks_cons command rest]
    omega

/-- From the last command that set the timer on, it runs down from the value that it was given. -/
theorem timer_after_of_sets {machine : Machine} {clock : Clock} {command : Command} {later : List Command}
    {value : UInt8} (hr : ∀ command ∈ later, ¬command.restarts) (hs : machine.Sets clock command value)
    (h : (machine.perform command).machine.LeavesAlone clock later) :
    ((machine.after (command :: later)).timer clock).value.toNat = value.toNat - machine.ticks (command :: later) := by
  change (((machine.perform command).machine.after later).timer clock).value.toNat = _
  rw [timer_after_of_leavesAlone hr h, timer_perform_of_sets hs, machine.ticks_cons command later]
  omega

/-- A session leaves the timer alone or has a last command that sets it. -/
theorem leavesAlone_or_exists_sets (machine : Machine) (clock : Clock) (commands : List Command) :
    machine.LeavesAlone clock commands ∨
      ∃ earlier command later value, commands = earlier ++ command :: later ∧
        (machine.after earlier).Sets clock command value ∧
        (machine.after (earlier ++ [command])).LeavesAlone clock later := by
  induction commands generalizing machine with
  | nil => exact .inl trivial
  | cons command rest ih =>
    rcases ih (machine.perform command).machine with hrest | ⟨earlier, other, later, value, rfl, hs, hl⟩
    · by_cases hfirst : ∃ value, machine.Sets clock command value
      · obtain ⟨value, hs⟩ := hfirst
        exact .inr ⟨[], command, rest, value, rfl, hs, hrest⟩
      · exact .inl ⟨not_exists.1 hfirst, hrest⟩
    · exact .inr ⟨command :: earlier, other, later, value, rfl, hs, hl⟩

/-- In a session without a reset or a load, a timer shows the value that the last instruction to set it found in its
register, or that of the start if there was none, less the ticks since then and never less than zero.  The tick of that
instruction's own step is one of them.  A machine that leaves the timers to its host has no ticks but the host's; with
one that ticks them itself all the steps count that complete, whatever their outcome, and none that fails.  The
instruction that reads the delay timer finds it as it was before its step. -/
theorem timers_session (machine : Machine) :
    (∀ (clock : Clock) (commands : List Command), (∀ command ∈ commands, ¬command.restarts) →
      (machine.LeavesAlone clock commands ∨
        ∃ earlier command later value, commands = earlier ++ command :: later ∧
          (machine.after earlier).Sets clock command value ∧
          (machine.after (earlier ++ [command])).LeavesAlone clock later) ∧
      (machine.LeavesAlone clock commands →
        ((machine.after commands).timer clock).value.toNat =
          (machine.timer clock).value.toNat - machine.ticks commands) ∧
      ∀ earlier command later value, commands = earlier ++ command :: later →
        (machine.after earlier).Sets clock command value →
        (machine.after (earlier ++ [command])).LeavesAlone clock later →
        ((machine.after commands).timer clock).value.toNat =
          value.toNat - (machine.after earlier).ticks (command :: later)) ∧
    (machine.timing = .external → ∀ commands, machine.ticks commands = commands.countP Command.ticksTimers) ∧
    (∀ command, Command.steps command →
      (∀ fault, (machine.perform command).answer = .failed fault → machine.ticks [command] = 0) ∧
      ∀ outcome shown, (machine.perform command).answer = .stepped outcome shown →
        machine.ticks [command] = if machine.timing = .perStep then 1 else 0) ∧
    ∀ command x, Command.steps command → machine.Fetches (Opcode.ofByte 0xF x 0x07) →
      (machine.perform command).answer = .stepped .plain none ∧
        (machine.perform command).machine.register x = machine.delay.value := by
  refine ⟨?runs, fun h commands => ticks_of_external h commands, ?steps, fun command x hs hf => perform_readDelay hs hf⟩
  case runs =>
    intro clock commands hr
    refine ⟨machine.leavesAlone_or_exists_sets clock commands, timer_after_of_leavesAlone hr, ?_⟩
    rintro earlier command later value rfl hs hl
    have hlater : ∀ other ∈ later, ¬other.restarts := fun other h =>
      hr other (List.mem_append_right _ (List.mem_cons_of_mem _ h))
    rw [after_append] at hl ⊢
    exact timer_after_of_sets hlater hs hl
  case steps =>
    intro command hs
    exact ⟨fun fault h => ticks_of_failed hs h, fun outcome shown h => ticks_of_stepped hs h⟩

/-- The delay timer is set to five and read in a tick, the host ticks the timers, and a return fails. -/
theorem timers_session_countdown :
    let machine := ((create .perStep {}).machine.perform
      (.load [0x60, 0x05, 0xF0, 0x15, 0xF1, 0x07, 0x00, 0xEE])).machine
    let reading := machine.after [.step, .step]
    let failing := machine.after [.step, .step, .step]
    ((machine.after [.step, .step, .tick [⟨3, true⟩], .tickTimers]).timer .delay).value.toNat = 2 ∧
      (reading.perform (.tick [⟨3, true⟩])).machine.register 1 = 4 ∧
      failing.ticks [.step] = 0 := by
  intro machine reading failing
  let setting := machine.after [.step]
  let later : List Command := [.tick [⟨3, true⟩], .tickTimers]
  obtain ⟨hfive, hticks⟩ : setting.register 0 = 5 ∧ setting.ticks (.step :: later) = 3 := by decide +kernel
  obtain ⟨hset, hsethigh, hsetlow⟩ :
      setting.counter.toNat = 0x202 ∧ setting.memory[0x202] = 0xF0 ∧ setting.memory[0x203] = 0x15 := by
    decide +kernel
  obtain ⟨hread, hreadhigh, hreadlow, hfour⟩ : reading.counter.toNat = 0x204 ∧ reading.memory[0x204] = 0xF1 ∧
      reading.memory[0x205] = 0x07 ∧ reading.delay.value = 4 := by
    decide +kernel
  obtain ⟨hfail, hfailhigh, hfaillow, hempty⟩ : failing.counter.toNat = 0x206 ∧ failing.memory[0x206] = 0x00 ∧
      failing.memory[0x207] = 0xEE ∧ failing.stack = [] := by
    decide +kernel
  clear_value machine
  have hsetting := fetches_of_getElem hset (by decide) hsethigh hsetlow
  have hreading := fetches_of_getElem hread (by decide) hreadhigh hreadlow
  have hfailing := fetches_of_getElem hfail (by decide) hfailhigh hfaillow
  have hsets : setting.Sets .delay .step 5 := ⟨rfl, 0, hsetting, hfive⟩
  have halone : reading.LeavesAlone .delay later := by
    refine ⟨?_, ?_, trivial⟩
    · rintro value ⟨-, x, hf, -⟩
      have hopcode : ∀ x : Register, Opcode.ofBytes 0xF1 0x07 ≠ Clock.delay.opcode x := by decide
      exact hopcode x (hreading.unique hf)
    · rintro value ⟨hs, -⟩
      exact Bool.false_ne_true hs
  have hfault : (failing.perform .step).answer = .failed .stackEmpty := by
    apply answer_perform_of_error rfl
    exact answer_cycle_of_fails (.ret ((failing.stack_heeded .step).trans hempty)) (fetches_heeded.2 hfailing)
  have hcommands : ∀ command ∈ [Command.step, .step] ++ later, ¬command.restarts := by
    simp [later, Command.restarts]
  obtain ⟨hruns, -⟩ := timers_session machine
  refine ⟨?_, ?_, ?_⟩
  · have hdelay := (hruns .delay _ hcommands).2.2 [.step] .step later 5 rfl hsets halone
    rw [hticks] at hdelay
    exact hdelay
  · rw [← hfour]
    exact ((timers_session reading).2.2.2 (.tick [⟨3, true⟩]) 1 rfl hreading).2
  · exact ((timers_session failing).2.2.1 .step rfl).1 .stackEmpty hfault

end Machine

end Chip8
