import Chip8.Proofs.Peripherals

/-!
# Ways of key events into a machine

A host can hand key events to a tick, put them in front of the pending ones, or write them key by key before a step.
All three bring the same machine to the fetch (`Machine.applyPending_polled`, `Machine.after_map_setKey`), so the step
ends alike; and events whose key does not exist make no difference to any of them (`Keypad.heedAll_valid`).
-/

namespace Chip8

/-- The events whose key exists. -/
def KeyEvent.valid (events : List KeyEvent) : List KeyEvent := events.filter fun event => event.key < 16

/-- A way in which a host hands key events over for the next step. -/
inductive InputPath where
  /-- A tick polls them. -/
  | poll
  /-- They wait in front of the events that are pending. -/
  | queue
  /-- They are written one by one, and the faults of those whose key does not exist are ignored. -/
  | write
  deriving DecidableEq, Repr

/-- A step with key events that come in on a path. -/
def Machine.stepWith (machine : Machine) (events : List KeyEvent) : InputPath → Report (Except Fault Outcome)
  | .poll => machine.tick events
  | .queue => { machine with pending := events ++ machine.pending }.step
  | .write => (machine.after (events.map .setKey)).step

namespace Keypad

theorem heed_of_le {event : KeyEvent} (h : ¬event.key < 16) (keypad : Keypad) : keypad.heed event = keypad :=
  heed_of_target?_eq_none (by rw [KeyEvent.target?, dif_neg h]) keypad

/-- Events whose key does not exist are passed over, wherever they stand. -/
theorem heedAll_valid (keypad : Keypad) (events : List KeyEvent) :
    keypad.heedAll (KeyEvent.valid events) = keypad.heedAll events := by
  induction events generalizing keypad with
  | nil => rfl
  | cons event rest ih =>
    have hrest : (keypad.heed event).heedAll (KeyEvent.valid rest) = keypad.heedAll (event :: rest) := ih _
    rw [← hrest, KeyEvent.valid, List.filter_cons]
    by_cases h : event.key < 16
    · rw [if_pos (decide_eq_true h)]
      rfl
    · rw [if_neg (by simpa using h), heed_of_le h]
      rfl

end Keypad

namespace Machine

/-! ### The machine at the fetch -/

theorem applyPending_polled (machine : Machine) (events : List KeyEvent) :
    { machine with keypad := machine.keypad.heedAll events }.applyPending =
      { machine with pending := events ++ machine.pending }.applyPending := by
  simp only [applyPending, Keypad.heedAll_append]

theorem after_map_setKey (machine : Machine) (events : List KeyEvent) :
    machine.after (events.map .setKey) = { machine with keypad := machine.keypad.heedAll events } := by
  induction events generalizing machine with
  | nil => rfl
  | cons event rest ih =>
    have hrest := ih (machine.perform (.setKey event)).machine
    rw [machine_perform_setKey] at hrest
    rw [List.map_cons, after, List.foldl_cons, machine_perform_setKey]
    exact hrest

theorem applyPending_valid (machine : Machine) (events : List KeyEvent) :
    { machine with pending := KeyEvent.valid events ++ KeyEvent.valid machine.pending }.applyPending =
      { machine with pending := events ++ machine.pending }.applyPending := by
  simp only [applyPending, Keypad.heedAll_append, Keypad.heedAll_valid]

/-! ### Steps -/

/-- Machine and answer of a step are settled at the fetch. -/
theorem step_congr {machine other : Machine} (h : machine.applyPending = other.applyPending) :
    machine.step.machine = other.step.machine ∧ machine.step.answer = other.step.answer := by
  simp only [step, h, and_self]

theorem pending_step (machine : Machine) : machine.step.machine.pending = [] := by
  obtain ⟨delay, sound, hm⟩ := machine_perform_eq_cycle (show Command.step.steps from rfl) machine
  rw [← machine_perform_step, hm]
  exact machine.applyPending.pending_cycle

theorem stepWith_eq_queue (machine : Machine) (events : List KeyEvent) (path : InputPath) :
    (machine.stepWith events path).machine = (machine.stepWith events .queue).machine ∧
      (machine.stepWith events path).answer = (machine.stepWith events .queue).answer := by
  cases path with
  | poll => exact step_congr (machine.applyPending_polled events)
  | queue => exact ⟨rfl, rfl⟩
  | write =>
    have hwritten := congrArg applyPending (machine.after_map_setKey events)
    exact step_congr (hwritten.trans (machine.applyPending_polled events))

theorem log_stepWith_poll (machine : Machine) (events : List KeyEvent) :
    (machine.stepWith events .poll).log = (machine.stepWith events .queue).log := by
  have hc := congrArg (·.cycle.log) (machine.applyPending_polled events)
  simp only [stepWith, tick, step, dropped_append, List.append_assoc] at hc ⊢
  rw [hc]

/-- It does not matter whether key events are polled by a tick, queued in front of the pending ones, or written one by
one before a step.  The answers are the same and so are the machines, with no event left in the queue; a tick and a
queue also log the same records.  On each of these paths, machine and answer are those that there would be without the
events whose key does not exist. -/
theorem input_paths_agree (machine : Machine) (events : List KeyEvent) :
    (∀ path other : InputPath,
      (machine.stepWith events path).machine = (machine.stepWith events other).machine ∧
        (machine.stepWith events path).answer = (machine.stepWith events other).answer) ∧
    (∀ path : InputPath, (machine.stepWith events path).machine.pending = []) ∧
    (machine.stepWith events .poll).log = (machine.stepWith events .queue).log ∧
    ∀ path : InputPath,
      let cleared : Machine := { machine with pending := KeyEvent.valid machine.pending }
      (cleared.stepWith (KeyEvent.valid events) path).machine = (machine.stepWith events path).machine ∧
        (cleared.stepWith (KeyEvent.valid events) path).answer = (machine.stepWith events path).answer := by
  refine ⟨?_, ?_, machine.log_stepWith_poll events, ?_⟩
  · intro path other
    obtain ⟨hm, ha⟩ := machine.stepWith_eq_queue events path
    obtain ⟨hm', ha'⟩ := machine.stepWith_eq_queue events other
    exact ⟨hm.trans hm'.symm, ha.trans ha'.symm⟩
  · intro path
    rw [(machine.stepWith_eq_queue events path).1]
    exact pending_step _
  · intro path cleared
    obtain ⟨hm, ha⟩ := cleared.stepWith_eq_queue (KeyEvent.valid events) path
    obtain ⟨hm', ha'⟩ := machine.stepWith_eq_queue events path
    obtain ⟨hvalid, havalid⟩ := step_congr (machine.applyPending_valid events)
    exact ⟨hm.trans (hvalid.trans hm'.symm), ha.trans (havalid.trans ha'.symm)⟩

end Machine

end Chip8
