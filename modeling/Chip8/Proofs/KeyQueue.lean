import Chip8.Proofs.KeyWait
import Chip8.Proofs.Peripherals
import Mathlib.Data.List.DropRight

/-!
# The queue of key events

A push through any handle to the queue of a machine is the command `enqueue` (`Host.handles_share_queues`), and a
session interleaves the pushes with whatever else is done to the machine.  The queue holds what was pushed since it was
drained last (`Machine.pending_after`).  A step hands all of it to the keypad before it fetches
(`Machine.heeded_of_steps`), and a machine that is put back in its reset state drops it.  The states of the keys are
what the writes that reached the keypad since then make of them (`Machine.down_after_eq_foldl`).
-/

namespace Chip8

/-- A write to the keys, of one or of all. -/
inductive KeyWrite where
  | key (key : Key) (pressed : Bool)
  | all (down : KeySet)
  deriving DecidableEq, Repr

def KeySet.write (keys : KeySet) : KeyWrite → KeySet
  | .key key pressed => keys.update key pressed
  | .all down => down

/-- An event whose key does not exist writes nothing. -/
def KeyEvent.write? (event : KeyEvent) : Option KeyWrite :=
  event.target?.map fun key => .key key event.pressed

theorem Keypad.down_heed (keypad : Keypad) (event : KeyEvent) :
    (keypad.heed event).down = event.write?.elim keypad.down keypad.down.write := by
  cases ht : event.target? with
  | none =>
    rw [heed_of_target?_eq_none ht, KeyEvent.write?, ht]
    rfl
  | some key =>
    rw [heed_of_target? ht, KeyEvent.write?, ht]
    rfl

theorem Keypad.down_heedAll (keypad : Keypad) (events : List KeyEvent) :
    (keypad.heedAll events).down = (events.filterMap KeyEvent.write?).foldl KeySet.write keypad.down := by
  induction events generalizing keypad with
  | nil => rfl
  | cons event rest ih =>
    have hrest : (keypad.heedAll (event :: rest)).down = _ := ih (keypad.heed event)
    rw [hrest, down_heed]
    cases hw : event.write? with
    | none => rw [List.filterMap_cons_none hw, Option.elim_none]
    | some write => rw [List.filterMap_cons_some hw, Option.elim_some, List.foldl_cons]

/-! ### What commands have to do with the queue -/

namespace Command

/-- Whether the command empties the queue. -/
def drains (command : Command) : Bool := command.steps || command.restarts

/-- The events that the command puts into the queue. -/
def pushed : Command → List KeyEvent
  | enqueue events => events
  | _ => []

/-- The events that the command gets from elsewhere than the queue, for its step. -/
def polled : Command → List KeyEvent
  | tick events => events
  | _ => []

/-- The events that a session pushed since it drained the queue last. -/
def queued (commands : List Command) : List KeyEvent :=
  (commands.rtakeWhile fun command => !command.drains).flatMap pushed

/-- The writes of a command that finds the events in the queue. -/
def writes (queue : List KeyEvent) : Command → List KeyWrite
  | step => queue.filterMap KeyEvent.write?
  | tick events => (events ++ queue).filterMap KeyEvent.write?
  | setKey event => [event].filterMap KeyEvent.write?
  | setKeys down => [.all down]
  | _ => []

/-- The writes of a session that follows another. -/
def writesAlong (earlier : List Command) : List Command → List KeyWrite
  | [] => []
  | command :: rest => command.writes (queued earlier) ++ writesAlong (earlier ++ [command]) rest

/-- The writes of a session since it put the machine back in its reset state last. -/
def written (commands : List Command) : List KeyWrite :=
  writesAlong (commands.rdropWhile fun command => !command.restarts)
    (commands.rtakeWhile fun command => !command.restarts)

theorem drains_of_steps {command : Command} (h : command.steps) : command.drains := by
  rw [drains, h, Bool.true_or]

theorem drains_of_restarts {command : Command} (h : command.restarts) : command.drains := by
  rw [drains, h, Bool.or_true]

theorem pushed_of_drains {command : Command} (h : command.drains) : command.pushed = [] := by
  cases command with
  | enqueue events => cases h
  | _ => rfl

theorem queued_append_singleton (commands : List Command) (command : Command) :
    queued (commands ++ [command]) = if command.drains then [] else queued commands ++ command.pushed := by
  by_cases h : command.drains
  · rw [if_pos h, queued, List.rtakeWhile_concat_neg _ _ _ (by simp [h])]
    rfl
  · rw [if_neg h, queued, List.rtakeWhile_concat_pos _ _ _ (by simp [h]), List.flatMap_append, List.flatMap_singleton]
    rfl

theorem writesAlong_append_singleton (earlier later : List Command) (command : Command) :
    writesAlong earlier (later ++ [command]) =
      writesAlong earlier later ++ command.writes (queued (earlier ++ later)) := by
  induction later generalizing earlier with
  | nil =>
    rw [List.append_nil]
    exact List.append_nil _
  | cons next rest ih =>
    rw [List.cons_append, writesAlong, writesAlong, ih, ← List.append_assoc, ← List.append_cons]

theorem written_append_singleton (commands : List Command) (command : Command) :
    written (commands ++ [command]) =
      if command.restarts then [] else written commands ++ command.writes (queued commands) := by
  by_cases h : command.restarts
  · rw [if_pos h, written, List.rtakeWhile_concat_neg _ _ _ (by simp [h]), writesAlong]
  · rw [if_neg h, written, List.rtakeWhile_concat_pos _ _ _ (by simp [h]),
      List.rdropWhile_concat_pos _ _ _ (by simp [h]), writesAlong_append_singleton,
      List.rdropWhile_append_rtakeWhile, written]

end Command

namespace Machine

/-! ### The queue -/

/-- The queues that the draining commands of a session find. -/
def drained (machine : Machine) : List Command → List (List KeyEvent)
  | [] => []
  | command :: rest =>
    let later := (machine.perform command).machine.drained rest
    if command.drains then machine.pending :: later else later

theorem heeded_of_steps {command : Command} (h : command.steps) (machine : Machine) :
    machine.heeded command =
      { machine with keypad := machine.keypad.heedAll (command.polled ++ machine.pending), pending := [] } := by
  cases command with
  | step => rfl
  | tick events =>
    rw [Command.polled, Keypad.heedAll_append]
    rfl
  | _ => cases h

theorem heard_of_steps {command : Command} (h : command.steps) (machine : Machine) :
    machine.heard command = command.polled ++ machine.pending := by
  cases command with
  | step | tick _ => rfl
  | _ => cases h

theorem pending_perform (machine : Machine) (command : Command) :
    (machine.perform command).machine.pending = if command.drains then [] else machine.pending ++ command.pushed := by
  by_cases hs : command.steps
  · obtain ⟨delay, sound, hm⟩ := machine_perform_eq_cycle hs machine
    have hc := (machine.heeded command).pending_cycle
    rw [if_pos (Command.drains_of_steps hs), hm, hc, heeded_of_steps hs]
  · by_cases hr : command.restarts
    · obtain ⟨memory, hm⟩ := machine_perform_of_restarts (restarts_iff.2 hr)
      rw [if_pos (Command.drains_of_restarts hr), hm]
      rfl
    · rw [if_neg (by simp [Command.drains, hs, hr])]
      cases command with
      | step | tick _ => exact absurd rfl hs
      | enqueue events => rfl
      | setKey event =>
        rw [machine_perform_setKey]
        exact (List.append_nil _).symm
      | load _ | loadRom _ | reset =>
        rw [machine_perform_of_refused hr Bool.false_ne_true]
        exact (List.append_nil _).symm
      | tickTimers | setKeys _ | supply _ => exact (List.append_nil _).symm

/-- The queue is what was pushed since it was drained last. -/
theorem pending_after {machine : Machine} (h : machine.pending = []) (commands : List Command) :
    (machine.after commands).pending = Command.queued commands := by
  induction commands using List.reverseRecOn with
  | nil => exact h
  | append_singleton commands command ih =>
    rw [after_append, Command.queued_append_singleton, ← ih]
    exact pending_perform _ command

/-- What is pushed ends up in one queue that is drained, or stays in the queue. -/
theorem flatten_drained_append (machine : Machine) (commands : List Command) :
    (machine.drained commands).flatten ++ (machine.after commands).pending =
      machine.pending ++ commands.flatMap Command.pushed := by
  induction commands generalizing machine with
  | nil => exact (List.append_nil _).symm
  | cons command rest ih =>
    have hrest := ih (machine.perform command).machine
    rw [pending_perform] at hrest
    rw [drained, List.flatMap_cons]
    by_cases hd : command.drains
    · rw [if_pos hd, List.nil_append] at hrest
      rw [if_pos hd, List.flatten_cons, List.append_assoc, Command.pushed_of_drains hd, List.nil_append, ← hrest]
      rfl
    · rw [if_neg hd, List.append_assoc] at hrest
      rw [if_neg hd, ← hrest]
      rfl

/-- A cycle that runs while events are pushed leaves them in the queue. -/
theorem cycle_enqueue (machine : Machine) (events : List KeyEvent) :
    (machine.enqueue events).cycle = { machine.cycle with machine := machine.cycle.machine.enqueue events } := by
  refine (machine.cycle_with_host machine.timing (machine.pending ++ events)).trans ?_
  rw [← machine.timing_cycle, ← machine.pending_cycle]
  rfl

/-! ### The keys -/

theorem down_perform_of_not_restarts {command : Command} (hr : ¬command.restarts) (machine : Machine) :
    (machine.perform command).machine.keypad.down =
      (command.writes machine.pending).foldl KeySet.write machine.keypad.down := by
  cases command with
  | step | tick _ =>
    rw [down_perform, ← down_heeded rfl, heeded_of_steps rfl]
    exact Keypad.down_heedAll _ _
  | setKey event =>
    rw [machine_perform_setKey]
    exact machine.keypad.down_heedAll [event]
  | load _ | loadRom _ =>
    rw [machine_perform_of_refused hr Bool.false_ne_true]
    rfl
  | reset => exact absurd rfl hr
  | tickTimers | setKeys _ | enqueue _ | supply _ => rfl

/-- Nothing is left in the keypad and the queue of a machine that is put back in its reset state. -/
theorem keypad_pending_of_restarts {command : Command} (h : command.restarts) (machine : Machine) :
    (machine.perform command).machine.keypad = {} ∧ (machine.perform command).machine.pending = [] := by
  obtain ⟨memory, hm⟩ := machine_perform_of_restarts (restarts_iff.2 h)
  rw [hm]
  exact ⟨rfl, rfl⟩

/-- The keys are what the writes make of them, from all keys up. -/
theorem down_after_eq_foldl {machine : Machine} (hp : machine.pending = []) (hd : machine.keypad.down = 0)
    (commands : List Command) :
    (machine.after commands).keypad.down = (Command.written commands).foldl KeySet.write 0 := by
  induction commands using List.reverseRecOn with
  | nil => exact hd
  | append_singleton commands command ih =>
    have hlast : machine.after (commands ++ [command]) = ((machine.after commands).perform command).machine :=
      machine.after_append commands [command]
    rw [hlast, Command.written_append_singleton]
    by_cases hr : command.restarts
    · rw [if_pos hr, (keypad_pending_of_restarts hr _).1]
      rfl
    · rw [if_neg hr, List.foldl_append, ← ih, down_perform_of_not_restarts hr, pending_after hp]

/-- No key event is lost, duplicated or reordered.  At any time the queue of a machine holds what was pushed since it
was drained last, and the queues that were drained, one after another, and this one are all that was ever pushed.  A
step runs its cycle on a keypad that took in the whole queue, after what a tick polled, whether or not the cycle fails;
and what is pushed meanwhile waits for the next one.  A machine that is put back in its reset state drops its queue, and
a load that is refused changes nothing.  The states of the keys are what the writes since the last such reset make of
them, where a pushed event counts at the step that drains it. -/
theorem key_queue_session (timing : Timing) (random : ByteSupply) :
    let start := (create timing random).machine
    (∀ commands, (start.after commands).pending = Command.queued commands ∧
      (start.drained commands).flatten ++ Command.queued commands = commands.flatMap Command.pushed) ∧
    (∀ earlier command, Command.steps command →
      let before := start.after earlier
      let events := command.polled ++ Command.queued earlier
      let fed := { before with keypad := before.keypad.heedAll events, pending := [] }
      let report := before.perform command
      (∀ outcome, fed.cycle.answer = .ok outcome →
        (∃ shown, report.answer = .stepped outcome shown) ∧ report.machine = fed.cycle.machine.elapse) ∧
      (∀ fault, fed.cycle.answer = .error fault → report.answer = .failed fault ∧ report.machine = fed) ∧
      report.log = dropped events ++ fed.cycle.log ∧
      ∀ others, (fed.enqueue others).cycle = { fed.cycle with machine := fed.cycle.machine.enqueue others }) ∧
    (∀ earlier command, Command.restarts command →
      ((start.after earlier).perform command).machine.keypad = {} ∧
        ((start.after earlier).perform command).machine.pending = []) ∧
    (∀ earlier command, ¬Command.keepsProgram command → ¬Command.restarts command →
      ((start.after earlier).perform command).machine = start.after earlier) ∧
    ∀ commands, (start.after commands).keypad.down = (Command.written commands).foldl KeySet.write 0 := by
  intro start
  have hqueue : ∀ commands, (start.after commands).pending = Command.queued commands := pending_after rfl
  refine ⟨?queue, ?steps, ?restarts, ?refused, ?keys⟩
  case queue =>
    intro commands
    refine ⟨hqueue commands, ?_⟩
    rw [← hqueue]
    exact start.flatten_drained_append commands
  case steps =>
    intro earlier command hs before events fed report
    -- what is pending before the step is what the session queued
    have hfed : before.heeded command = fed := by
      rw [heeded_of_steps hs, hqueue]
    have hlog := log_perform_of_steps hs before
    rw [heard_of_steps hs, hqueue, hfed] at hlog
    refine ⟨?_, ?_, hlog, fed.cycle_enqueue⟩
    · intro outcome ho
      rw [← hfed] at ho ⊢
      obtain ⟨shown, ha, -⟩ := answer_perform_of_ok hs ho
      exact ⟨⟨shown, ha⟩, machine_perform_of_ok hs ho⟩
    · intro fault hf
      rw [← hfed] at hf ⊢
      exact ⟨answer_perform_of_error hs hf, machine_perform_of_error hs hf⟩
  case restarts => exact fun earlier command h => keypad_pending_of_restarts h _
  case refused => exact fun earlier command hk hr => machine_perform_of_refused hr hk _
  case keys => exact down_after_eq_foldl rfl rfl

/-- A push, a write, a load that is refused and another push, before a step. -/
theorem key_queue_session_refused_load :
    let start := (create .perStep {}).machine
    let large : List UInt8 := List.replicate 3585 0
    let events : List KeyEvent := [⟨3, true⟩, ⟨16, true⟩]
    let earlier : List Command := [.enqueue events, .setKey ⟨3, false⟩, .load large, .enqueue [⟨5, true⟩]]
    (start.after earlier).pending = events ++ [⟨5, true⟩] ∧
      ((start.after earlier).perform (.load large)).machine = start.after earlier ∧
      (∃ log, ((start.after earlier).perform .step).log = dropped [⟨16, true⟩] ++ log) ∧
      ((start.after earlier).perform .reset).machine.keypad.down = 0 ∧
      (start.after (earlier ++ [.step])).keypad.down = 0x28 := by
  intro start large events earlier
  obtain ⟨hqueue, hsteps, hrestarts, hrefused, hkeys⟩ := key_queue_session .perStep {}
  have hlarge : ¬(Command.load large).restarts := by decide +kernel
  have hevents : Command.queued earlier = events ++ [⟨5, true⟩] := by decide +kernel
  have hwritten : (Command.written (earlier ++ [.step])).foldl KeySet.write 0 = 0x28 := by decide +kernel
  clear_value large earlier
  have hlog := (hsteps earlier .step rfl).2.2.1
  rw [hevents] at hlog
  refine ⟨?_, hrefused earlier _ Bool.false_ne_true hlarge, ⟨_, hlog⟩, ?_, ?_⟩
  · rw [← hevents]
    exact (hqueue earlier).1
  · exact congrArg Keypad.down (hrestarts earlier .reset rfl).1
  · rw [← hwritten]
    exact hkeys (earlier ++ [.step])

end Machine

end Chip8
