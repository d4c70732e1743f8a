import Chip8.Machine.Command
import Chip8.Proofs.Cycle

/-!
# What a command does

A command that runs an instruction is a cycle of the machine that took in its key events (`Machine.heeded`), and time
passes if the cycle completed.  The commands for keys and programs are described one by one, with the faults that they
can have.
-/

namespace Chip8

namespace Command

/-- Whether the command runs an instruction. -/
def steps : Command → Bool
  | step | tick _ => true
  | _ => false

/-- Whether the command leaves the program in memory. -/
def keepsProgram : Command → Bool
  | load _ | loadRom _ | reset => false
  | _ => true

/-- Whether the command puts any machine back in its reset state: it is a reset, or a load of a program that fits. -/
def restarts : Command → Bool
  | load program => decide (program.length ≤ Memory.programCapacity)
  | loadRom rom => decide (rom.bytes.length ≤ Memory.programCapacity)
  | reset => true
  | _ => false

end Command

namespace Machine

/-! ### Time -/

theorem elapse_eq (machine : Machine) :
    machine.elapse = { machine with delay := machine.elapse.delay, sound := machine.elapse.sound } := by
  unfold elapse
  split <;> rfl

theorem counter_elapse (machine : Machine) : machine.elapse.counter = machine.counter := by
  rw [elapse_eq]

theorem registers_elapse (machine : Machine) : machine.elapse.registers = machine.registers := by
  rw [elapse_eq]

theorem keypad_elapse (machine : Machine) : machine.elapse.keypad = machine.keypad := by
  rw [elapse_eq]

/-! ### Steps and ticks -/

/-- The machine after the key events that a command takes in. -/
def heeded (machine : Machine) : Command → Machine
  | .step => machine.applyPending
  | .tick events => { machine with keypad := machine.keypad.heedAll events }.applyPending
  | _ => machine

/-- The key events that a command takes in, the earliest one first. -/
def heard (machine : Machine) : Command → List KeyEvent
  | .step => machine.pending
  | .tick events => events ++ machine.pending
  | _ => []

theorem fetches_heeded {machine : Machine} {opcode : Opcode} {command : Command} :
    (machine.heeded command).Fetches opcode ↔ machine.Fetches opcode := by
  cases command <;> exact Iff.rfl

section Heeded

variable (machine : Machine) (command : Command)

theorem counter_heeded : (machine.heeded command).counter = machine.counter := by cases command <;> rfl

theorem index_heeded : (machine.heeded command).index = machine.index := by cases command <;> rfl

theorem register_heeded (x : Register) : (machine.heeded command).register x = machine.register x := by
  cases command <;> rfl

theorem stack_heeded : (machine.heeded command).stack = machine.stack := by cases command <;> rfl

theorem timing_heeded : (machine.heeded command).timing = machine.timing := by cases command <;> rfl

theorem random_heeded : (machine.heeded command).random = machine.random := by cases command <;> rfl

end Heeded

theorem machine_toReply (report : Report (Except Fault Outcome)) (shown : Option Screen) :
    (report.toReply shown).machine = report.machine := by
  unfold Report.toReply
  split <;> rfl

theorem log_toReply (report : Report (Except Fault Outcome)) (shown : Option Screen) :
    (report.toReply shown).log = report.log := by
  unfold Report.toReply
  split <;> rfl

theorem dropped_append (events others : List KeyEvent) :
    dropped (events ++ others) = dropped events ++ dropped others := by
  rw [dropped, KeyEvent.invalid, List.filter_append, List.map_append]
  rfl

theorem executing_notMem_dropped (instruction : Instruction) (events : List KeyEvent) :
    .executing instruction ∉ dropped events := by
  intro h
  obtain ⟨event, -, he⟩ := List.mem_map.1 h
  cases he

theorem machine_perform_step (machine : Machine) : (machine.perform .step).machine = machine.step.machine :=
  machine_toReply _ _

theorem machine_perform_tick (machine : Machine) (events : List KeyEvent) :
    (machine.perform (.tick events)).machine =
      { machine with keypad := machine.keypad.heedAll events }.step.machine :=
  machine_toReply _ _

section Steps

variable {machine : Machine} {command : Command} (hs : command.steps)

include hs

theorem machine_perform_of_steps (machine : Machine) :
    (machine.perform command).machine =
      if (machine.heeded command).cycle.answer.isOk then (machine.heeded command).cycle.machine.elapse
      else (machine.heeded command).cycle.machine := by
  cases command with
  | step =>
    rw [machine_perform_step]
    rfl
  | tick events =>
    rw [machine_perform_tick]
    rfl
  | _ => cases hs

/-- Beside the cycle itself a step moves the timers at most. -/
theorem machine_perform_eq_cycle (machine : Machine) :
    ∃ delay sound,
      (machine.perform command).machine = { (machine.heeded command).cycle.machine with delay, sound } := by
  rw [machine_perform_of_steps hs]
  split
  · exact ⟨_, _, elapse_eq _⟩
  · exact ⟨_, _, rfl⟩

theorem machine_perform_of_ok {outcome : Outcome} (h : (machine.heeded command).cycle.answer = .ok outcome) :
    (machine.perform command).machine = (machine.heeded command).cycle.machine.elapse := by
  rw [machine_perform_of_steps hs, h]
  rfl

/-- A cycle that fails leaves nothing behind but the key events that were taken in. -/
theorem machine_perform_of_error {fault : Fault} (h : (machine.heeded command).cycle.answer = .error fault) :
    (machine.perform command).machine = machine.heeded command := by
  rw [machine_perform_of_steps hs, h]
  exact machine_cycle_of_error h

theorem answer_perform_of_ok {outcome : Outcome} (h : (machine.heeded command).cycle.answer = .ok outcome) :
    ∃ shown, (machine.perform command).answer = .stepped outcome shown ∧ (outcome ≠ .drawn → shown = none) := by
  cases command with
  | step =>
    have ha : machine.step.answer = .ok outcome := h
    exact ⟨none, by simp only [perform, Report.toReply, ha], fun _ => rfl⟩
  | tick events =>
    have ha : (machine.tick events).answer = .ok outcome := h
    refine ⟨(machine.tick events).shown, by simp only [perform, Report.toReply, ha], ?_⟩
    intro hd
    rw [Report.shown, ha]
    cases outcome <;> first | rfl | exact absurd rfl hd
  | _ => cases hs

theorem answer_perform_of_ne_drawn {outcome : Outcome} (h : (machine.heeded command).cycle.answer = .ok outcome)
    (hd : outcome ≠ .drawn) : (machine.perform command).answer = .stepped outcome none := by
  obtain ⟨shown, ha, hn⟩ := answer_perform_of_ok hs h
  rw [ha, hn hd]

theorem answer_perform_of_error {fault : Fault} (h : (machine.heeded command).cycle.answer = .error fault) :
    (machine.perform command).answer = .failed fault := by
  cases command with
  | step =>
    have ha : machine.step.answer = .error fault := h
    simp only [perform, Report.toReply, ha]
  | tick events =>
    have ha : (machine.tick events).answer = .error fault := h
    simp only [perform, Report.toReply, ha]
  | _ => cases hs

theorem answer_cycle_of_failed {fault : Fault} (h : (machine.perform command).answer = .failed fault) :
    (machine.heeded command).cycle.answer = .error fault := by
  cases ha : (machine.heeded command).cycle.answer with
  | ok outcome =>
    obtain ⟨shown, he, -⟩ := answer_perform_of_ok hs ha
    rw [h] at he
    cases he
  | error other =>
    rw [answer_perform_of_error hs ha] at h
    cases h
    rfl

theorem log_perform_of_steps (machine : Machine) :
    (machine.perform command).log = dropped (machine.heard command) ++ (machine.heeded command).cycle.log := by
  cases command with
  | step => rw [perform, log_toReply, step, heeded, heard]
  | tick events =>
    rw [perform, log_toReply, tick, step, heeded, heard, dropped_append, List.append_assoc]
  | _ => cases hs

end Steps

section Completes

/-! A step ends in the effect of its instruction. -/

variable {machine : Machine} {command : Command} {opcode : Opcode} {instruction : Instruction} {effect : Effect}
  (hf : machine.Fetches opcode) (hd : Instruction.decode? opcode = some instruction)
  (he : (machine.heeded command).advanced.execute instruction = .ok effect)

include hf hd he

theorem cycle_heeded_of_execute :
    (machine.heeded command).cycle.answer = .ok effect.outcome ∧
      (machine.heeded command).cycle.machine = effect.settled := by
  have hfetch : (machine.heeded command).Fetches opcode := fetches_heeded.2 hf
  rw [cycle_of_fetches hfetch, dispatch_of_execute_eq_ok hd he]
  exact ⟨rfl, rfl⟩

theorem machine_perform_of_execute (hs : command.steps) :
    (machine.perform command).machine = effect.settled.elapse := by
  obtain ⟨ha, hm⟩ := cycle_heeded_of_execute hf hd he
  rw [machine_perform_of_ok hs ha, hm]

theorem answer_perform_of_execute (hs : command.steps) (hne : effect.outcome ≠ .drawn) :
    (machine.perform command).answer = .stepped effect.outcome none :=
  answer_perform_of_ne_drawn hs (cycle_heeded_of_execute hf hd he).1 hne

end Completes

/-! ### Keys -/

theorem machine_perform_setKey (machine : Machine) (event : KeyEvent) :
    (machine.perform (.setKey event)).machine = { machine with keypad := machine.keypad.heed event } := by
  simp only [perform, Keypad.heed]
  cases machine.keypad.apply event <;> rfl

theorem answer_setKey_eq_failed_iff {machine : Machine} {event : KeyEvent} {fault : Fault} :
    (machine.perform (.setKey event)).answer = .failed fault ↔ 16 ≤ event.key ∧ fault = .invalidKey event.key := by
  by_cases h : event.key < 16
  · have h' : ¬16 ≤ event.key := by omega
    simp [perform, Keypad.apply, KeyEvent.target?, h, h']
  · have h' : 16 ≤ event.key := by omega
    simp [perform, Keypad.apply, KeyEvent.target?, KeyEvent.fault, h, h', eq_comm]

/-! ### Programs -/

theorem loadReport_of_le {program : List UInt8} (h : program.length ≤ Memory.programCapacity) (machine : Machine) :
    machine.loadReport program =
      { machine := { machine.reset with memory := Memory.initial.write Memory.programStart program }
        answer := .done
        log := [.reset, .loaded program.length] } := by
  rw [loadReport, load, if_pos h]

theorem loadReport_of_lt {program : List UInt8} (h : Memory.programCapacity < program.length) (machine : Machine) :
    machine.loadReport program =
      { machine, answer := .failed (.programTooLarge program.length Memory.programCapacity) } := by
  rw [loadReport, load, if_neg (Nat.not_le.2 h)]

theorem answer_loadReport_eq_failed_iff {machine : Machine} {program : List UInt8} {fault : Fault} :
    (machine.loadReport program).answer = .failed fault ↔
      3584 < program.length ∧ fault = .programTooLarge program.length 3584 := by
  have e : Memory.programCapacity = 3584 := rfl
  by_cases h : program.length ≤ Memory.programCapacity
  · have h' : ¬3584 < program.length := by omega
    simp [loadReport_of_le h, h']
  · have h' : 3584 < program.length := by omega
    simp [loadReport_of_lt (Nat.not_le.1 h), h', e, eq_comm]

theorem machine_perform_load {program : List UInt8} (h : program.length ≤ Memory.programCapacity)
    (machine : Machine) :
    (machine.perform (.load program)).machine =
      { machine.reset with memory := Memory.initial.write Memory.programStart program } := by
  rw [perform, loadReport_of_le h]

/-- The command puts the machine back in its reset state: it is a reset, or a load that is not refused. -/
def Restarts (machine : Machine) (command : Command) : Prop :=
  ¬command.keepsProgram ∧ (machine.perform command).answer = .done

theorem machine_loadReport_of_done {machine : Machine} {program : List UInt8}
    (h : (machine.loadReport program).answer = .done) :
    (machine.loadReport program).machine =
      { machine.reset with memory := Memory.initial.write Memory.programStart program } := by
  by_cases hp : program.length ≤ Memory.programCapacity
  · rw [loadReport_of_le hp]
  · rw [loadReport_of_lt (Nat.not_le.1 hp)] at h
    cases h

theorem machine_loadReport_of_ne_done {machine : Machine} {program : List UInt8}
    (h : (machine.loadReport program).answer ≠ .done) : (machine.loadReport program).machine = machine := by
  by_cases hp : program.length ≤ Memory.programCapacity
  · rw [loadReport_of_le hp] at h
    exact absurd rfl h
  · rw [loadReport_of_lt (Nat.not_le.1 hp)]

theorem machine_perform_of_restarts {machine : Machine} {command : Command} (h : machine.Restarts command) :
    ∃ memory, (machine.perform command).machine = { machine.reset with memory } := by
  obtain ⟨hk, hd⟩ := h
  cases command with
  | load program => exact ⟨_, machine_loadReport_of_done hd⟩
  | loadRom rom =>
    have hl : (machine.loadReport rom.bytes).answer = .done := hd
    exact ⟨_, machine_loadReport_of_done hl⟩
  | reset => exact ⟨Memory.initial, by simp only [perform, reset]⟩
  | _ => exact absurd rfl hk

theorem machine_perform_of_not_restarts {machine : Machine} {command : Command} (hk : ¬command.keepsProgram)
    (h : ¬machine.Restarts command) : (machine.perform command).machine = machine := by
  have hd : (machine.perform command).answer ≠ .done := fun hd => h ⟨hk, hd⟩
  cases command with
  | load program => exact machine_loadReport_of_ne_done hd
  | loadRom rom =>
    have hl : (machine.loadReport rom.bytes).answer ≠ .done := hd
    exact machine_loadReport_of_ne_done hl
  | reset => exact absurd rfl hd
  | _ => exact absurd rfl hk

theorem answer_loadReport_eq_done_iff {machine : Machine} {program : List UInt8} :
    (machine.loadReport program).answer = .done ↔ program.length ≤ Memory.programCapacity := by
  by_cases h : program.length ≤ Memory.programCapacity
  · simp [loadReport_of_le h, h]
  · simp [loadReport_of_lt (Nat.not_le.1 h), h]

/-- Which commands restart a machine does not depend on the machine. -/
theorem restarts_iff {machine : Machine} {command : Command} : machine.Restarts command ↔ command.restarts := by
  cases command with
  | load program => simp [Restarts, Command.keepsProgram, Command.restarts, perform, answer_loadReport_eq_done_iff]
  | loadRom rom => simp [Restarts, Command.keepsProgram, Command.restarts, perform, answer_loadReport_eq_done_iff]
  | reset => simp [Restarts, Command.keepsProgram, Command.restarts, perform]
  | _ => simp [Restarts, Command.keepsProgram, Command.restarts]

/-- A load that is refused changes nothing. -/
theorem machine_perform_of_refused {command : Command} (hr : ¬command.restarts) (hk : ¬command.keepsProgram)
    (machine : Machine) : (machine.perform command).machine = machine :=
  machine_perform_of_not_restarts hk (mt restarts_iff.1 hr)

theorem not_restarts_of_keepsProgram {command : Command} (h : command.keepsProgram) (machine : Machine) :
    ¬machine.Restarts command :=
  fun hr => hr.1 h

/-- A command that neither runs an instruction nor resets the machine is about keys, timers and random bytes. -/
theorem machine_perform_of_idle {machine : Machine} {command : Command} (hs : ¬command.steps)
    (hr : ¬machine.Restarts command) :
    ∃ keypad pending delay sound random,
      (machine.perform command).machine = { machine with keypad, pending, delay, sound, random } := by
  by_cases hk : command.keepsProgram
  · cases command with
    | step | tick _ => exact absurd rfl hs
    | load _ | loadRom _ | reset => cases hk
    | setKey event => exact ⟨_, _, _, _, _, machine_perform_setKey machine event⟩
    | tickTimers | setKeys _ | enqueue _ | supply _ => exact ⟨_, _, _, _, _, rfl⟩
  · exact ⟨_, _, _, _, _, machine_perform_of_not_restarts hk hr⟩

/-- A loaded program is entered at its first opcode. -/
theorem fetches_load {high low : UInt8} {rest : List UInt8}
    (h : (high :: low :: rest).length ≤ Memory.programCapacity) (machine : Machine) :
    (machine.perform (.load (high :: low :: rest))).machine.Fetches (Opcode.ofBytes high low) := by
  rw [machine_perform_load h]
  refine fetches_of_getElem (show _ = 0x200 from rfl) (by decide) ?_ ?_
  · rw [Memory.getElem_write, if_neg (by decide)]
    rfl
  · rw [Memory.getElem_write, if_neg (by decide)]
    rfl

end Machine

end Chip8
