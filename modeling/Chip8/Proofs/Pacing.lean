import Chip8.Proofs.Peripherals

/-!
# Who ticks the timers

The timing of a machine has no part in its cycles (`Machine.cycle_withTiming`), only in what follows one that
completed.  So a machine that leaves the timers to its host is in step with one that ticks them itself, if the host
ticks them right after each step that completed and after no other (`Machine.performPaced_withTiming`).
-/

namespace Chip8

/-- The machine with another timing. -/
def Machine.withTiming (machine : Machine) (timing : Timing) : Machine := { machine with timing }

def Report.withTiming {α : Type} (report : Report α) (timing : Timing) : Report α :=
  { report with machine := report.machine.withTiming timing }

namespace Machine

/-! ### Cycles -/

/-- A cycle does not look at the timing. -/
theorem cycle_withTiming (machine : Machine) (timing : Timing) :
    (machine.withTiming timing).cycle = machine.cycle.withTiming timing := by
  refine (machine.cycle_with_host timing machine.pending).trans ?_
  rw [← machine.pending_cycle]
  rfl

/-! ### Steps -/

/-- A step of the machine that leaves the timers to its host does all of a step but the tick of the timers. -/
theorem machine_step_withTiming (machine : Machine) :
    (machine.withTiming .perStep).step.machine.withTiming .external =
      if (machine.withTiming .external).step.answer.isOk then (machine.withTiming .external).step.machine.tickTimers
      else (machine.withTiming .external).step.machine := by
  have hp : (machine.withTiming .perStep).applyPending.cycle = _ := machine.applyPending.cycle_withTiming .perStep
  have he : (machine.withTiming .external).applyPending.cycle = _ := machine.applyPending.cycle_withTiming .external
  simp only [step, hp, he, Report.withTiming]
  split <;> rfl

theorem answer_step_withTiming (machine : Machine) (timing : Timing) :
    (machine.withTiming timing).step.answer = machine.step.answer := by
  have h := congrArg Report.answer (machine.applyPending.cycle_withTiming timing)
  exact h

theorem log_step_withTiming (machine : Machine) (timing : Timing) :
    (machine.withTiming timing).step.log = machine.step.log := by
  have h := congrArg Report.log (machine.applyPending.cycle_withTiming timing)
  exact congrArg (dropped machine.pending ++ ·) h

end Machine

/-! ### A host that ticks the timers -/

/-- The host of the report ticks the timers if a step completed. -/
def Report.paced (report : Report Reply) : Report Reply :=
  match report.answer with
  | .stepped .. => { report with machine := (report.machine.perform .tickTimers).machine }
  | _ => report

theorem Report.paced_of_ne {report : Report Reply} (h : ∀ outcome shown, report.answer ≠ .stepped outcome shown) :
    report.paced = report := by
  unfold paced
  split
  · rename_i outcome shown ha
    exact absurd ha (h outcome shown)
  · rfl

section Paced

/-! Two steps that differ in who ticks the timers end alike once the host has done so. -/

variable {report other : Report (Except Fault Outcome)} (ha : other.answer = report.answer)
  (hm : report.machine.withTiming .external =
    if other.answer.isOk then other.machine.tickTimers else other.machine)

include ha hm

theorem Report.shown_paced : other.shown = report.shown := by
  have hscreen : other.machine.screen = report.machine.screen := by
    change _ = (report.machine.withTiming .external).screen
    rw [hm]
    split <;> rfl
  simp only [shown, ha, hscreen]

theorem Report.paced_toReply (hl : other.log = report.log) (shown : Option Screen) :
    (other.toReply shown).paced = (report.toReply shown).withTiming .external := by
  rw [ha] at hm
  cases h : report.answer with
  | ok outcome =>
    simp only [toReply, ha, h, paced, withTiming, hl, hm]
    rfl
  | error fault =>
    simp only [toReply, ha, h, paced, withTiming, hl, hm]
    rfl

end Paced

namespace Machine

/-- The command, and a tick of the timers right behind it if it was a step that completed. -/
def performPaced (machine : Machine) (command : Command) : Report Reply := (machine.perform command).paced

/-- The reports of a session in which each completed step is followed by a tick of the timers. -/
def performAllPaced (machine : Machine) : List Command → List (Report Reply)
  | [] => []
  | command :: rest =>
    let report := machine.performPaced command
    report :: performAllPaced report.machine rest

theorem loadReport_withTiming (machine : Machine) (program : List UInt8) :
    (machine.withTiming .external).loadReport program =
      ((machine.withTiming .perStep).loadReport program).withTiming .external := by
  by_cases h : program.length ≤ Memory.programCapacity
  · rw [loadReport_of_le h, loadReport_of_le h]
    rfl
  · rw [loadReport_of_lt (Nat.not_le.1 h), loadReport_of_lt (Nat.not_le.1 h)]
    rfl

theorem answer_loadReport_ne_stepped (machine : Machine) (program : List UInt8) (outcome : Outcome)
    (shown : Option Screen) : (machine.loadReport program).answer ≠ .stepped outcome shown := by
  by_cases h : program.length ≤ Memory.programCapacity
  · rw [loadReport_of_le h]
    exact Reply.noConfusion
  · rw [loadReport_of_lt (Nat.not_le.1 h)]
    exact Reply.noConfusion

/-- One command keeps the two machines in step. -/
theorem performPaced_withTiming (machine : Machine) (command : Command) :
    (machine.withTiming .external).performPaced command =
      ((machine.withTiming .perStep).perform command).withTiming .external := by
  cases command with
  | step =>
    refine Report.paced_toReply ?_ machine.machine_step_withTiming ?_ none
    · rw [answer_step_withTiming, answer_step_withTiming]
    · rw [log_step_withTiming, log_step_withTiming]
  | tick events =>
    let polled : Machine := { machine with keypad := machine.keypad.heedAll events }
    have ha : ((machine.withTiming .external).tick events).answer =
        ((machine.withTiming .perStep).tick events).answer :=
      (polled.answer_step_withTiming .external).trans (polled.answer_step_withTiming .perStep).symm
    have hl : (polled.withTiming .external).step.log = (polled.withTiming .perStep).step.log :=
      (polled.log_step_withTiming .external).trans (polled.log_step_withTiming .perStep).symm
    have hm := polled.machine_step_withTiming
    simp only [performPaced, perform]
    rw [Report.shown_paced ha hm]
    exact Report.paced_toReply ha hm (congrArg (dropped events ++ ·) hl) _
  | load program =>
    refine (Report.paced_of_ne ?_).trans (machine.loadReport_withTiming program)
    exact answer_loadReport_ne_stepped _ program
  | loadRom rom =>
    have hl := machine.loadReport_withTiming rom.bytes
    refine (Report.paced_of_ne ?_).trans ?_
    · exact answer_loadReport_ne_stepped _ rom.bytes
    · simp only [perform, hl, Report.withTiming]
  | setKey event =>
    simp only [performPaced, perform, withTiming]
    cases machine.keypad.apply event <;> rfl
  | tickTimers | setKeys _ | enqueue _ | reset | supply _ => rfl

/-! ### Sessions -/

theorem withTiming_of_eq {machine : Machine} {timing : Timing} (h : machine.timing = timing) :
    machine.withTiming timing = machine := by
  subst h
  rfl

/-- No command changes who ticks the timers. -/
theorem timing_perform (machine : Machine) (command : Command) :
    (machine.perform command).machine.timing = machine.timing := by
  by_cases hs : command.steps
  · obtain ⟨delay, sound, h⟩ := machine_perform_eq_cycle hs machine
    rw [h]
    change (machine.heeded command).cycle.machine.timing = machine.timing
    rw [timing_cycle]
    cases command <;> rfl
  · by_cases hr : machine.Restarts command
    · obtain ⟨memory, h⟩ := machine_perform_of_restarts hr
      simp only [h, reset]
    · obtain ⟨keypad, pending, delay, sound, random, h⟩ := machine_perform_of_idle hs hr
      rw [h]

theorem performAllPaced_withTiming {machine : Machine} (h : machine.timing = .perStep) (commands : List Command) :
    (machine.withTiming .external).performAllPaced commands =
      (machine.performAll commands).map (Report.withTiming · .external) := by
  induction commands generalizing machine with
  | nil => rfl
  | cons command rest ih =>
    have hp := machine.performPaced_withTiming command
    rw [withTiming_of_eq h] at hp
    have hr := ih ((machine.timing_perform command).trans h)
    simp only [performAllPaced, performAll, List.map_cons, hp]
    rw [← hr]
    rfl

theorem timing_of_mem_performAll {machine : Machine} {commands : List Command} {report : Report Reply}
    (h : report ∈ machine.performAll commands) : report.machine.timing = machine.timing := by
  induction commands generalizing machine with
  | nil => cases h
  | cons command rest ih =>
    rw [performAll, List.mem_cons] at h
    rcases h with rfl | h
    · exact machine.timing_perform command
    · rw [ih h, timing_perform]

/-- Of two machines that differ only in their timing, one ticks its timers with each step and the other leaves them to
its host, who ticks them right behind each step that completed.  Then all the commands of a session are answered alike,
with the same frames and records, and the machines never differ in anything but their timing. -/
theorem paced_session {machine other : Machine} (ht : machine.timing = .perStep)
    (ho : other = { machine with timing := .external }) (commands : List Command) :
    other.performAllPaced commands =
        (machine.performAll commands).map (fun report =>
          { report with machine := { report.machine with timing := .external } }) ∧
      ∀ report ∈ machine.performAll commands, report.machine.timing = .perStep := by
  subst ho
  constructor
  · exact performAllPaced_withTiming ht commands
  · intro report h
    rw [timing_of_mem_performAll h, ht]

/-- A session in which the delay timer is set, the host ticks it of its own accord and a return fails. -/
theorem paced_session_delay :
    let machine := ((create .perStep {}).machine.perform (.load [0x60, 0x05, 0xF0, 0x15, 0x00, 0xEE])).machine
    let other : Machine := { machine with timing := .external }
    let commands : List Command := [.step, .step, .tickTimers, .step, .tick [⟨3, true⟩]]
    machine.timing = .perStep ∧
      other.performAllPaced commands =
        (machine.performAll commands).map fun report =>
          { report with machine := { report.machine with timing := .external } } := by
  intro machine other commands
  have ht : machine.timing = .perStep := (timing_perform _ _).trans rfl
  exact ⟨ht, (paced_session ht rfl commands).1⟩

end Machine

end Chip8
