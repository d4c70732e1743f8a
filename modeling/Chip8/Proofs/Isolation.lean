import Chip8.Proofs.Frame
import Chip8.Proofs.Peripherals

/-!
# Programs that do not look outside

Machines that run the same program in the same state may differ in their peripherals (`Machine.SameProgram`).  As long
as no instruction looks at these, the next step of the one does what the next step of the other does
(`Machine.SameProgram.perform`), whatever their hosts have done before.  So the steps of two sessions go alike one by
one, whatever the hosts do between them, until the first step that looks outside.
-/

namespace Chip8

/-- The instruction looks at a timer, a random byte or the keys. -/
def Instruction.LooksOutside : Instruction → Prop
  | readDelay _ | random _ _ | skipKeyDown _ | skipKeyUp _ | awaitKey _ => True
  | _ => False

theorem Instruction.seesSame_of_not_looksOutside {instruction : Instruction} (h : ¬instruction.LooksOutside)
    (first second : Peripherals) : instruction.SeesSame first second := by
  cases instruction
  case readDelay | random | skipKeyDown | skipKeyUp | awaitKey => exact absurd trivial h
  all_goals trivial

/-- What a step or a tick comes to, apart from the frame that it shows. -/
def Reply.result? : Reply → Option (Except Fault Outcome)
  | .stepped outcome _ => some (.ok outcome)
  | .failed fault => some (.error fault)
  | .done => none

namespace Machine

theorem result?_perform {machine : Machine} {command : Command} (hs : command.steps) :
    (machine.perform command).answer.result? = some (machine.heeded command).cycle.answer := by
  cases ha : (machine.heeded command).cycle.answer with
  | ok outcome =>
    obtain ⟨shown, he, -⟩ := answer_perform_of_ok hs ha
    rw [he]
    rfl
  | error fault =>
    rw [answer_perform_of_error hs ha]
    rfl

/-- The machines are in the same state of the same program; their peripherals may differ. -/
structure SameProgram (machine other : Machine) : Prop where
  memory_eq : other.memory = machine.memory
  counter_eq : other.counter = machine.counter
  index_eq : other.index = machine.index
  registers_eq : other.registers = machine.registers
  stack_eq : other.stack = machine.stack
  screen_eq : other.screen = machine.screen

/-- No instruction at the counter looks outside. -/
def Secluded (machine : Machine) : Prop :=
  ∀ opcode instruction, machine.Fetches opcode → Instruction.decode? opcode = some instruction →
    ¬instruction.LooksOutside

/-- What looks outside never fails. -/
theorem answer_cycle_of_looksOutside {machine : Machine} {opcode : Opcode} {instruction : Instruction}
    (hf : machine.Fetches opcode) (hd : Instruction.decode? opcode = some instruction) (h : instruction.LooksOutside) :
    ∃ outcome, machine.cycle.answer = .ok outcome := by
  cases he : machine.advanced.execute instruction with
  | ok effect =>
    rw [cycle_of_fetches hf, dispatch_of_execute_eq_ok hd he]
    exact ⟨_, rfl⟩
  | error fault =>
    cases execute_eq_error_iff.1 he <;> cases h

namespace SameProgram

variable {machine other third : Machine}

theorem refl (machine : Machine) : machine.SameProgram machine := ⟨rfl, rfl, rfl, rfl, rfl, rfl⟩

theorem symm (h : machine.SameProgram other) : other.SameProgram machine :=
  ⟨h.memory_eq.symm, h.counter_eq.symm, h.index_eq.symm, h.registers_eq.symm, h.stack_eq.symm, h.screen_eq.symm⟩

theorem trans (h : machine.SameProgram other) (h' : other.SameProgram third) : machine.SameProgram third :=
  ⟨h'.memory_eq.trans h.memory_eq, h'.counter_eq.trans h.counter_eq, h'.index_eq.trans h.index_eq,
    h'.registers_eq.trans h.registers_eq, h'.stack_eq.trans h.stack_eq, h'.screen_eq.trans h.screen_eq⟩

theorem eq_attach (h : machine.SameProgram other) : other = machine.attach other.peripherals := by
  obtain ⟨hm, hc, hi, hr, hs, hp⟩ := h
  cases machine
  cases other
  cases hm
  cases hc
  cases hi
  cases hr
  cases hs
  cases hp
  rfl

theorem attach (machine : Machine) (peripherals : Peripherals) : machine.SameProgram (machine.attach peripherals) :=
  ⟨rfl, rfl, rfl, rfl, rfl, rfl⟩

/-! ### Commands -/

theorem heeded (machine : Machine) (command : Command) : machine.SameProgram (machine.heeded command) := by
  obtain ⟨keypad, pending, hh⟩ := machine.heeded_eq command
  rw [hh]
  exact ⟨rfl, rfl, rfl, rfl, rfl, rfl⟩

theorem cycle (h : machine.SameProgram other) (hsecluded : machine.Secluded) :
    other.cycle.answer = machine.cycle.answer ∧ machine.cycle.machine.SameProgram other.cycle.machine := by
  obtain ⟨later, hcycle, -⟩ := machine.cycle_attach fun opcode instruction hf hd =>
    Instruction.seesSame_of_not_looksOutside (hsecluded opcode instruction hf hd) machine.peripherals other.peripherals
  rw [h.eq_attach, hcycle]
  exact ⟨rfl, attach _ later⟩

/-- Steps go alike if the instruction of the one does not look outside. -/
theorem perform (h : machine.SameProgram other) (hsecluded : machine.Secluded) {command command' : Command}
    (hs : command.steps) (hs' : command'.steps) :
    (other.perform command').answer.result? = (machine.perform command).answer.result? ∧
      (machine.perform command).machine.SameProgram (other.perform command').machine := by
  have hheeded : (machine.heeded command).SameProgram (other.heeded command') :=
    (heeded machine command).symm.trans (h.trans (heeded other command'))
  have hsame : (machine.heeded command).Secluded := fun opcode instruction hf hd =>
    hsecluded opcode instruction (fetches_heeded.1 hf) hd
  obtain ⟨ha, hcycle⟩ := hheeded.cycle hsame
  obtain ⟨delay, sound, hm⟩ := machine_perform_eq_cycle hs machine
  obtain ⟨delay', sound', hm'⟩ := machine_perform_eq_cycle hs' other
  rw [result?_perform hs, result?_perform hs', ha, hm, hm']
  exact ⟨rfl, { hcycle with }⟩

/-- What a host does between the steps leaves the program as it is. -/
theorem perform_of_idle (machine : Machine) {command : Command} (hs : ¬command.steps) (hr : ¬command.restarts) :
    machine.SameProgram (machine.perform command).machine := by
  obtain ⟨keypad, pending, delay, sound, random, hm⟩ := machine_perform_of_idle hs (mt restarts_iff.1 hr)
  rw [hm]
  exact ⟨rfl, rfl, rfl, rfl, rfl, rfl⟩

end SameProgram

/-! ### Sessions -/

/-- The reports of the steps and ticks of a session, the earliest one first. -/
def stepReports (machine : Machine) : List Command → List (Report Reply)
  | [] => []
  | command :: rest =>
    let report := machine.perform command
    if command.steps then report :: report.machine.stepReports rest else report.machine.stepReports rest

theorem stepReports_cons_of_steps {command : Command} (h : command.steps) (machine : Machine) (rest : List Command) :
    machine.stepReports (command :: rest) =
      machine.perform command :: (machine.perform command).machine.stepReports rest :=
  if_pos h

theorem stepReports_cons_of_not_steps {command : Command} (h : ¬command.steps) (machine : Machine)
    (rest : List Command) :
    machine.stepReports (command :: rest) = (machine.perform command).machine.stepReports rest :=
  if_neg h

theorem length_stepReports (machine : Machine) (commands : List Command) :
    (machine.stepReports commands).length = commands.countP Command.steps := by
  induction commands generalizing machine with
  | nil => rfl
  | cons command rest ih =>
    by_cases hs : command.steps
    · rw [stepReports_cons_of_steps hs, List.length_cons, ih, List.countP_cons_of_pos hs]
    · rw [stepReports_cons_of_not_steps hs, ih, List.countP_cons_of_neg hs]

theorem exists_result_of_mem_stepReports {machine : Machine} {commands : List Command} {report : Report Reply}
    (h : report ∈ machine.stepReports commands) : ∃ result, report.answer.result? = some result := by
  induction commands generalizing machine with
  | nil => cases h
  | cons command rest ih =>
    by_cases hs : command.steps
    · rw [stepReports_cons_of_steps hs, List.mem_cons] at h
      rcases h with rfl | h
      · exact ⟨_, result?_perform hs⟩
      · exact ih h
    · rw [stepReports_cons_of_not_steps hs] at h
      exact ih h

/-- What the host does before the first step leaves the program as it is. -/
theorem stepReports_eq_nil_or {machine : Machine} {commands : List Command}
    (hr : ∀ command ∈ commands, ¬command.restarts) :
    machine.stepReports commands = [] ∨ ∃ later command rest, machine.SameProgram later ∧ Command.steps command ∧
      (∀ command ∈ rest, ¬Command.restarts command) ∧
      machine.stepReports commands = later.perform command :: (later.perform command).machine.stepReports rest := by
  induction commands generalizing machine with
  | nil => exact .inl rfl
  | cons command rest ih =>
    obtain ⟨hfirst, hrest⟩ := List.forall_mem_cons.1 hr
    by_cases hs : command.steps
    · exact .inr ⟨machine, command, rest, .refl machine, hs, hrest, stepReports_cons_of_steps hs machine rest⟩
    · rw [stepReports_cons_of_not_steps hs]
      rcases ih hrest with hnil | ⟨later, first, others, hlater, hcons⟩
      · exact .inl hnil
      · exact .inr ⟨later, first, others, (SameProgram.perform_of_idle machine hs hfirst).trans hlater, hcons⟩

/-- Nothing that ran in the session looks outside, so its first step does not. -/
theorem secluded_of_ran {machine : Machine} {command : Command} {rest : List Command} (hs : command.steps)
    (h : ∀ before instruction outcome, machine.Ran (command :: rest) before instruction outcome →
      ¬instruction.LooksOutside) : machine.Secluded := by
  intro opcode instruction hf hd hlooks
  have hheeded : (machine.heeded command).Fetches opcode := fetches_heeded.2 hf
  obtain ⟨outcome, ha⟩ := answer_cycle_of_looksOutside hheeded hd hlooks
  obtain ⟨shown, hshown, -⟩ := answer_perform_of_ok hs ha
  exact h machine instruction outcome (ran_cons.2 (.inl ⟨hs, rfl, opcode, shown, hf, hd, hshown⟩)) hlooks

theorem SameProgram.stepReports {machine other : Machine} (h : machine.SameProgram other)
    {commands others : List Command} (hr : ∀ command ∈ commands, ¬command.restarts)
    (hr' : ∀ command ∈ others, ¬command.restarts)
    (hlook : ∀ before instruction outcome, machine.Ran commands before instruction outcome →
      ¬instruction.LooksOutside) {i : Nat} {report same : Report Reply}
    (hi : (machine.stepReports commands)[i]? = some report) (hi' : (other.stepReports others)[i]? = some same) :
    same.answer.result? = report.answer.result? ∧ report.machine.SameProgram same.machine := by
  induction commands generalizing machine other others i with
  | nil => cases hi
  | cons command rest ih =>
    obtain ⟨hfirst, hrest⟩ := List.forall_mem_cons.1 hr
    have hran : ∀ before instruction outcome, (machine.perform command).machine.Ran rest before instruction outcome →
        ¬instruction.LooksOutside := fun before instruction outcome hran =>
      hlook before instruction outcome (ran_cons.2 (.inr hran))
    by_cases hs : command.steps
    · rw [stepReports_cons_of_steps hs] at hi
      rcases stepReports_eq_nil_or hr' with hnil | ⟨later, command', rest', hlater, hs', hrest', hcons⟩
      · rw [hnil] at hi'
        cases hi'
      · rw [hcons] at hi'
        obtain ⟨hanswer, hmachine⟩ := (h.trans hlater).perform (secluded_of_ran hs hlook) hs hs'
        cases i with
        | zero =>
          cases hi
          cases hi'
          exact ⟨hanswer, hmachine⟩
        | succ i => exact ih hmachine hrest hrest' hran hi hi'
    · rw [stepReports_cons_of_not_steps hs] at hi
      exact ih ((perform_of_idle machine hs hfirst).symm.trans h) hrest hr' hran hi hi'

/-- Two machines in the same state of the same program, with any peripherals, go through sessions of their own in which
neither is put back in its reset state.  If no instruction of the first session looks outside, then the steps of both
come to the same one by one, and leave the same state of the program behind. -/
theorem isolated_session {machine other : Machine} (h : machine.SameProgram other) {commands others : List Command}
    (hr : ∀ command ∈ commands, ¬command.restarts) (hr' : ∀ command ∈ others, ¬command.restarts)
    (hlook : ∀ before instruction outcome, machine.Ran commands before instruction outcome →
      ¬instruction.LooksOutside) :
    ∀ i, i < commands.countP Command.steps → i < others.countP Command.steps →
      ∃ report same result, (machine.stepReports commands)[i]? = some report ∧
        (other.stepReports others)[i]? = some same ∧
        report.answer.result? = some result ∧ same.answer.result? = some result ∧
        report.machine.SameProgram same.machine := by
  intro i hlt hlt'
  rw [← length_stepReports] at hlt hlt'
  obtain ⟨result, hresult⟩ := exists_result_of_mem_stepReports (List.getElem_mem hlt)
  have hi := List.getElem?_eq_getElem hlt
  have hi' := List.getElem?_eq_getElem hlt'
  obtain ⟨ha, hm⟩ := h.stepReports hr hr' hlook hi hi'
  exact ⟨_, _, result, hi, hi', hresult, ha.trans hresult, hm⟩

/-- A program that writes over its third opcode, a return without a call, before it comes there. -/
theorem isolated_session_overwritten :
    let program : List UInt8 := [0xA2, 0x04, 0xF1, 0x55, 0x00, 0xEE]
    let machine := ((create .perStep {}).machine.perform (.load program)).machine
    let other := ((create .external { bytes := #[7] }).machine.perform (.load program)).machine.after
      [.setKey ⟨5, true⟩, .enqueue [⟨3, true⟩]]
    ∃ report same result, (machine.stepReports [.step, .step, .step])[2]? = some report ∧
      (other.stepReports [.tickTimers, .tick [⟨16, true⟩], .step, .setKey ⟨1, true⟩, .tick []])[2]? = some same ∧
      report.answer.result? = some result ∧ same.answer.result? = some result ∧
      report.machine.SameProgram same.machine := by
  intro program machine other
  have hp : program.length ≤ Memory.programCapacity := by decide
  let loaded := ((create .external { bytes := #[7] }).machine.perform (.load program)).machine
  have hloaded : machine.SameProgram loaded := by
    simp only [machine, loaded, machine_perform_load hp]
    exact ⟨rfl, rfl, rfl, rfl, rfl, rfl⟩
  have hkey : loaded.SameProgram (loaded.perform (.setKey ⟨5, true⟩)).machine :=
    SameProgram.perform_of_idle loaded Bool.false_ne_true Bool.false_ne_true
  have hqueue : (loaded.perform (.setKey ⟨5, true⟩)).machine.SameProgram other :=
    SameProgram.perform_of_idle _ Bool.false_ne_true
      (show ¬(Command.enqueue [⟨3, true⟩]).restarts from Bool.false_ne_true)
  have hfirst : machine.Fetches (Opcode.ofBytes 0xA2 0x04) := fetches_load hp (create .perStep {}).machine
  obtain ⟨⟨hcounter, hhigh, hlow⟩, hcounter', hhigh', hlow'⟩ :
      ((machine.after [.step]).counter.toNat = 0x202 ∧ (machine.after [.step]).memory[0x202] = 0xF1 ∧
          (machine.after [.step]).memory[0x203] = 0x55) ∧
        (machine.after [.step, .step]).counter.toNat = 0x204 ∧ (machine.after [.step, .step]).memory[0x204] = 0x00 ∧
          (machine.after [.step, .step]).memory[0x205] = 0x00 := by
    decide +kernel
  have hsecond := fetches_of_getElem hcounter (by decide) hhigh hlow
  have hthird := fetches_of_getElem hcounter' (by decide) hhigh' hlow'
  clear_value machine other
  have hlook : ∀ before instruction outcome, machine.Ran [.step, .step, .step] before instruction outcome →
      ¬instruction.LooksOutside := by
    refine forall_ran_cons hfirst (fun instruction hd => ?_) (forall_ran_cons hsecond (fun instruction hd => ?_)
      (forall_ran_cons hthird (fun instruction hd => ?_) fun _ _ _ hran => absurd hran not_ran_nil))
    all_goals
      cases Option.some.inj hd
      exact id
  exact isolated_session ((hloaded.trans hkey).trans hqueue) (by simp [Command.restarts]) (by simp [Command.restarts])
    hlook 2 (by decide) (by decide)

end Machine

end Chip8
