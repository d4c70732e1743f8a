import Chip8.Proofs.Peripherals
import Chip8.Proofs.Presentation

/-!
# Outputs that nothing reads

The sound timer and the last transition of the keypad are there for the host alone.  Machines that differ in these two
and in nothing else answer each command alike, with the same frame and the same records, and differ in nothing else
afterwards (`Machine.SameInside.perform`).  So what the host hears and what it is told of the keys never comes back
into a program.
-/

namespace Chip8

/-- The second machine is the first with some other sound timer and some other last transition of its keypad. -/
def Machine.SameInside (machine other : Machine) : Prop :=
  ∃ sound last, other = { machine with sound, keypad := { machine.keypad with last } }

/-- The reports tell the same, of such machines. -/
structure Report.SameInside {α : Type} (report other : Report α) : Prop where
  answer_eq : other.answer = report.answer
  log_eq : other.log = report.log
  machine : report.machine.SameInside other.machine

namespace Keypad

/-! ### Keypads -/

section Last

variable (keypad : Keypad) (last : Option Transition)

theorem heed_with_last (event : KeyEvent) :
    ∃ later, { keypad with last }.heed event = { keypad.heed event with last := later } := by
  cases ht : event.target? with
  | none =>
    rw [heed_of_target?_eq_none ht, heed_of_target?_eq_none ht]
    exact ⟨last, rfl⟩
  | some key =>
    rw [heed_of_target? ht, heed_of_target? ht]
    exact ⟨_, rfl⟩

theorem heedAll_with_last (events : List KeyEvent) :
    ∃ later, { keypad with last }.heedAll events = { keypad.heedAll events with last := later } := by
  induction events generalizing keypad last with
  | nil => exact ⟨last, rfl⟩
  | cons event rest ih =>
    obtain ⟨middle, h⟩ := keypad.heed_with_last last event
    obtain ⟨later, hrest⟩ := ih (keypad.heed event) middle
    rw [← h] at hrest
    exact ⟨later, hrest⟩

theorem snd_takePress_with_last :
    { keypad with last }.takePress.2 = { keypad.takePress.2 with last } := by
  rw [snd_takePress, snd_takePress, fst_takePress, fst_takePress]
  rfl

end Last

end Keypad

namespace Machine.SameInside

variable {machine other : Machine}

/-! ### Cycles -/

theorem cycle (h : machine.SameInside other) : machine.cycle.SameInside other.cycle := by
  obtain ⟨sound, last, rfl⟩ := h
  let changed : Peripherals := { machine.peripherals with sound, keypad := { machine.keypad with last } }
  obtain ⟨later, hcycle, hlater⟩ := machine.cycle_attach_of_eq changed rfl rfl rfl rfl
  have hsame : ∃ sound, later =
      { machine.cycle.machine.peripherals with
        sound, keypad := { machine.cycle.machine.peripherals.keypad with last } } := by
    rcases hlater with ⟨hp, rfl⟩ | ⟨instruction, hp, rfl⟩
    · rw [hp]
      exact ⟨sound, rfl⟩
    · rw [hp]
      refine ⟨(machine.attach changed).soundAfter instruction, ?_⟩
      cases instruction
      -- the only instruction that writes to the keypad
      case awaitKey x =>
        have htake := machine.keypad.snd_takePress_with_last last
        simp only [peripheralsAfter, keypadAfter, attach, changed, htake]
        rfl
      all_goals rfl
  obtain ⟨sound, rfl⟩ := hsame
  change machine.cycle.SameInside (machine.attach changed).cycle
  rw [hcycle]
  exact ⟨rfl, rfl, sound, last, rfl⟩

/-! ### Steps and ticks -/

theorem tickTimers (h : machine.SameInside other) : machine.tickTimers.SameInside other.tickTimers := by
  obtain ⟨sound, last, rfl⟩ := h
  exact ⟨sound.tick, last, rfl⟩

theorem elapse (h : machine.SameInside other) : machine.elapse.SameInside other.elapse := by
  have ht : other.timing = machine.timing := by
    obtain ⟨sound, last, rfl⟩ := h
    rfl
  unfold Machine.elapse
  rw [ht]
  cases machine.timing
  · exact h.tickTimers
  · exact h

theorem applyPending (h : machine.SameInside other) : machine.applyPending.SameInside other.applyPending := by
  obtain ⟨sound, last, rfl⟩ := h
  obtain ⟨later, hheed⟩ := machine.keypad.heedAll_with_last last machine.pending
  refine ⟨sound, later, ?_⟩
  simp only [Machine.applyPending, hheed]

theorem step (h : machine.SameInside other) : machine.step.SameInside other.step := by
  have hp : other.pending = machine.pending := by
    obtain ⟨sound, last, rfl⟩ := h
    rfl
  have hc := h.applyPending.cycle
  refine ⟨hc.answer_eq, ?_, ?_⟩
  · simp only [Machine.step, hc.log_eq, hp]
  · simp only [Machine.step, hc.answer_eq]
    split
    · exact hc.machine.elapse
    · exact hc.machine

theorem tick (h : machine.SameInside other) (events : List KeyEvent) :
    (machine.tick events).SameInside (other.tick events) := by
  have hpolled : { machine with keypad := machine.keypad.heedAll events }.SameInside
      { other with keypad := other.keypad.heedAll events } := by
    obtain ⟨sound, last, rfl⟩ := h
    obtain ⟨later, hheed⟩ := machine.keypad.heedAll_with_last last events
    exact ⟨sound, later, by simp only [hheed]⟩
  have hs := hpolled.step
  exact ⟨hs.answer_eq, congrArg (dropped events ++ ·) hs.log_eq, hs.machine⟩

end Machine.SameInside

namespace Report.SameInside

variable {report other : Report (Except Fault Outcome)}

theorem shown_eq (h : report.SameInside other) : other.shown = report.shown := by
  have hscreen : other.machine.screen = report.machine.screen := by
    obtain ⟨sound, last, hm⟩ := h.machine
    rw [hm]
  simp only [shown, h.answer_eq, hscreen]

theorem toReply (h : report.SameInside other) (shown : Option Screen) :
    (report.toReply shown).SameInside (other.toReply shown) := by
  have ha := h.answer_eq
  unfold Report.toReply
  rw [ha]
  cases report.answer <;> exact ⟨rfl, h.log_eq, h.machine⟩

end Report.SameInside

namespace Machine

namespace SameInside

variable {machine other : Machine}

/-! ### Commands -/

theorem loadReport (h : machine.SameInside other) (program : List UInt8) :
    (machine.loadReport program).SameInside (other.loadReport program) := by
  by_cases hp : program.length ≤ Memory.programCapacity
  · obtain ⟨sound, last, rfl⟩ := h
    rw [loadReport_of_le hp, loadReport_of_le hp]
    exact ⟨rfl, rfl, {}, none, rfl⟩
  · rw [loadReport_of_lt (Nat.not_le.1 hp), loadReport_of_lt (Nat.not_le.1 hp)]
    exact ⟨rfl, rfl, h⟩

/-- Each command is answered alike, and leaves machines behind that are the same inside. -/
theorem perform (h : machine.SameInside other) (command : Command) :
    (machine.perform command).SameInside (other.perform command) := by
  cases command with
  | step => exact h.step.toReply none
  | tick events =>
    have ht := h.tick events
    simp only [Machine.perform, ht.shown_eq]
    exact ht.toReply _
  | tickTimers => exact ⟨rfl, rfl, h.tickTimers⟩
  | setKey event =>
    obtain ⟨sound, last, rfl⟩ := h
    simp only [Machine.perform, Keypad.apply]
    cases event.target? with
    | none => exact ⟨rfl, rfl, sound, last, rfl⟩
    | some key => exact ⟨rfl, rfl, sound, _, rfl⟩
  | load program => exact h.loadReport program
  | loadRom rom =>
    have hl := h.loadReport rom.bytes
    exact ⟨hl.answer_eq, congrArg (LogRecord.loadingRom rom.name :: ·) hl.log_eq, hl.machine⟩
  | setKeys _ | enqueue _ | reset | supply _ =>
    obtain ⟨sound, last, rfl⟩ := h
    exact ⟨rfl, rfl, _, _, rfl⟩

/-! ### Sessions -/

theorem after (h : machine.SameInside other) (commands : List Command) :
    (machine.after commands).SameInside (other.after commands) := by
  induction commands generalizing machine other with
  | nil => exact h
  | cons command rest ih => exact ih (h.perform command).machine

theorem frames_eq (h : machine.SameInside other) (commands : List Command) :
    other.frames commands = machine.frames commands := by
  induction commands generalizing machine other with
  | nil => rfl
  | cons command rest ih =>
    have hp := h.perform command
    rw [frames_cons, frames_cons, hp.answer_eq, ih hp.machine]

end SameInside

/-- Two machines that agree in everything but the sound timer and the last transition of the keypad are driven through
the same session.  Every command has the same answer on both, with the same records, the display gets the same frames,
and after every command the machines still agree in everything but these two. -/
theorem outputs_session {machine other : Machine} (h : machine.SameInside other) (commands : List Command) :
    other.frames commands = machine.frames commands ∧
      ∀ command,
        let report := (machine.after commands).perform command
        let same := (other.after commands).perform command
        same.answer = report.answer ∧ same.log = report.log ∧
          ∃ sound last, same.machine =
            { report.machine with sound, keypad := { report.machine.keypad with last } } := by
  refine ⟨h.frames_eq commands, ?_⟩
  intro command report same
  have hp := (h.after commands).perform command
  exact ⟨hp.answer_eq, hp.log_eq, hp.machine⟩

/-- A tone is cut short on one of two machines, and a key that is up is let go there. -/
theorem outputs_session_tone :
    let machine := (create .perStep {}).machine.after [.load [0x60, 0x05, 0xF0, 0x18, 0x00, 0xEE], .step, .step]
    let other := machine.after [.tickTimers, .setKey ⟨2, false⟩]
    machine.SameInside other ∧ other.sound ≠ machine.sound ∧ other.keypad.last ≠ machine.keypad.last ∧
      other.frames [.tick [⟨3, true⟩]] = machine.frames [.tick [⟨3, true⟩]] ∧
      (other.perform .step).answer = (machine.perform .step).answer := by
  intro machine other
  obtain ⟨hsound, hdelay, hkeypad⟩ :
      machine.sound.tick ≠ machine.sound ∧ machine.delay.tick = machine.delay ∧ machine.keypad = {} := by
    decide +kernel
  clear_value machine
  have hother : other =
      { machine with
        sound := machine.sound.tick
        keypad := { machine.keypad with last := some ⟨2, false, false⟩ } } := by
    have hup : Keypad.heed {} ⟨2, false⟩ = { last := some ⟨2, false, false⟩ } := by decide
    change (machine.tickTimers.perform (.setKey ⟨2, false⟩)).machine = _
    rw [machine_perform_setKey]
    simp only [Machine.tickTimers, hdelay, hkeypad, hup]
  have h : machine.SameInside other := ⟨_, _, hother⟩
  obtain ⟨hframes, -⟩ := outputs_session h [.tick [⟨3, true⟩]]
  obtain ⟨-, hreports⟩ := outputs_session h []
  refine ⟨h, ?_, ?_, hframes, (hreports .step).1⟩
  · rw [hother]
    exact hsound
  · rw [hother, hkeypad]
    exact Option.some_ne_none _

end Machine

end Chip8
