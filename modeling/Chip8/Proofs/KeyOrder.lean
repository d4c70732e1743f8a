import Chip8.Proofs.InputPaths
import Chip8.Proofs.Outputs

/-!
# The order of key events

What becomes of a key depends on the events of this key alone: a keypad that heeds events agrees at the key with one
that heeds no others (`Keypad.agreeAt_heedAll_on`).  So events on different keys can change places, and a bulk write is
the same as writing the keys one by one in any order.  The last transition alone tells the orders apart, and no machine
looks at it (`Machine.SameButLast.perform`).
-/

namespace Chip8

namespace KeyEvent

/-- The events of a key. -/
def on (key : Nat) (events : List KeyEvent) : List KeyEvent := events.filter fun event => event.key = key

/-- The same events, for each key in the same order. -/
def Reorders (events others : List KeyEvent) : Prop := ∀ key, on key others = on key events

theorem on_cons_of_eq {event : KeyEvent} {key : Nat} (h : event.key = key) (rest : List KeyEvent) :
    on key (event :: rest) = event :: on key rest :=
  List.filter_cons_of_pos (decide_eq_true h)

theorem on_cons_of_ne {event : KeyEvent} {key : Nat} (h : event.key ≠ key) (rest : List KeyEvent) :
    on key (event :: rest) = on key rest :=
  List.filter_cons_of_neg (by simpa using h)

theorem on_append (key : Nat) (events others : List KeyEvent) :
    on key (events ++ others) = on key events ++ on key others :=
  List.filter_append _ _

theorem Reorders.append_right {events others : List KeyEvent} (h : Reorders events others) (later : List KeyEvent) :
    Reorders (events ++ later) (others ++ later) := by
  intro key
  rw [on_append, on_append, h key]

/-- An event is found as often as among the events of its key. -/
theorem Reorders.perm {events others : List KeyEvent} (h : Reorders events others) : others.Perm events := by
  rw [List.perm_iff_count]
  intro event
  have hcount := congrArg (List.count event) (h event.key)
  rwa [on, on, List.count_filter (by simp), List.count_filter (by simp)] at hcount

/-- The write that brings a key into its state in the target. -/
def toward (target : KeySet) (key : Key) : KeyEvent := ⟨key.val, target.has key⟩

/-- Whatever the order in which all keys are written, each of them is written once. -/
theorem on_map_toward {order : List Key} (h : order.Perm (List.finRange 16)) (target : KeySet) (key : Key) :
    on key.val (order.map (toward target)) = [toward target key] := by
  have hkey : (List.finRange 16).filter (fun other => decide (other.val = key.val)) = [key] := by
    revert key
    decide
  have hall : on key.val ((List.finRange 16).map (toward target)) = [toward target key] := by
    rw [on, List.filter_map]
    exact congrArg (List.map (toward target)) hkey
  have hperm : (on key.val (order.map (toward target))).Perm (on key.val ((List.finRange 16).map (toward target))) :=
    (h.map _).filter _
  rw [hall] at hperm
  exact List.perm_singleton.1 hperm

end KeyEvent

namespace Keypad

/-! ### One key at a time -/

/-- The keypads tell the same of a key and of the wait. -/
structure AgreeAt (key : Key) (keypad other : Keypad) : Prop where
  down : other.down.has key = keypad.down.has key
  flagged : other.flagged.has key = keypad.flagged.has key
  awaiting : other.awaiting = keypad.awaiting

theorem has_down_heed (keypad : Keypad) (event : KeyEvent) (key : Key) :
    (keypad.heed event).down.has key = if event.key = key.val then event.pressed else keypad.down.has key := by
  by_cases hlt : event.key < 16
  · have ht : event.target? = some ⟨event.key, hlt⟩ := dif_pos hlt
    have hkey : (key = ⟨event.key, hlt⟩) = (event.key = key.val) := by
      rw [Fin.ext_iff]
      exact propext eq_comm
    rw [heed_of_target? ht, set, KeySet.has_update]
    simp only [hkey]
  · have hkey := key.isLt
    rw [heed_of_le hlt, if_neg (by omega)]

/-- A key is flagged if it was before, or goes down during the wait. -/
theorem has_flagged_heed (keypad : Keypad) (event : KeyEvent) (key : Key) :
    (keypad.heed event).flagged.has key =
      (keypad.flagged.has key || (keypad.awaiting && ((keypad.heed event).down.has key && !keypad.down.has key))) := by
  cases hw : keypad.wait with
  | none => simp [flagged, awaiting, hw, wait_heed_eq_none hw]
  | some flagged => simp [Keypad.flagged, awaiting, hw, wait_heed hw]

theorem has_flagged_setAll (keypad : Keypad) (target : KeySet) (key : Key) :
    (keypad.setAll target).flagged.has key =
      (keypad.flagged.has key || (keypad.awaiting && (target.has key && !keypad.down.has key))) := by
  cases hw : keypad.wait with
  | none => simp [flagged, awaiting, hw, wait_setAll_eq_none hw]
  | some flagged => simp [Keypad.flagged, awaiting, hw, wait_setAll hw]

namespace AgreeAt

variable {key : Key} {keypad other third : Keypad}

theorem refl (key : Key) (keypad : Keypad) : AgreeAt key keypad keypad := ⟨rfl, rfl, rfl⟩

theorem symm (h : AgreeAt key keypad other) : AgreeAt key other keypad :=
  ⟨h.down.symm, h.flagged.symm, h.awaiting.symm⟩

theorem trans (h : AgreeAt key keypad other) (h' : AgreeAt key other third) : AgreeAt key keypad third :=
  ⟨h'.down.trans h.down, h'.flagged.trans h.flagged, h'.awaiting.trans h.awaiting⟩

theorem heed (h : AgreeAt key keypad other) (event : KeyEvent) :
    AgreeAt key (keypad.heed event) (other.heed event) := by
  constructor
  · rw [has_down_heed, has_down_heed, h.down]
  · rw [has_flagged_heed, has_flagged_heed, has_down_heed, has_down_heed, h.down, h.flagged, h.awaiting]
  · rw [awaiting_heed, awaiting_heed, h.awaiting]

theorem heedAll (h : AgreeAt key keypad other) (events : List KeyEvent) :
    AgreeAt key (keypad.heedAll events) (other.heedAll events) := by
  induction events generalizing keypad other with
  | nil => exact h
  | cons event rest ih => exact ih (h.heed event)

end AgreeAt

/-- The event of another key leaves a key alone. -/
theorem agreeAt_heed_of_ne {event : KeyEvent} {key : Key} (h : event.key ≠ key.val) (keypad : Keypad) :
    AgreeAt key (keypad.heed event) keypad := by
  have hdown : (keypad.heed event).down.has key = keypad.down.has key := by
    rw [has_down_heed, if_neg h]
  refine ⟨hdown.symm, ?_, (keypad.awaiting_heed event).symm⟩
  rw [has_flagged_heed, hdown, Bool.and_not_self, Bool.and_false, Bool.or_false]

theorem agreeAt_heedAll_on (key : Key) (keypad : Keypad) (events : List KeyEvent) :
    AgreeAt key (keypad.heedAll events) (keypad.heedAll (KeyEvent.on key.val events)) := by
  induction events generalizing keypad with
  | nil => exact .refl key keypad
  | cons event rest ih =>
    by_cases h : event.key = key.val
    · rw [KeyEvent.on_cons_of_eq h]
      exact ih (keypad.heed event)
    · rw [KeyEvent.on_cons_of_ne h]
      exact (ih (keypad.heed event)).trans ((agreeAt_heed_of_ne h keypad).heedAll _)

/-! ### All keys -/

theorem wait_eq_ite (keypad : Keypad) : keypad.wait = if keypad.awaiting then some keypad.flagged else none := by
  cases h : keypad.wait with
  | none => simp [awaiting, h]
  | some flagged => simp [awaiting, Keypad.flagged, h]

/-- Keypads that agree at every key have the same keys and the same wait. -/
theorem eq_of_agreeAt {keypad other : Keypad} (h : ∀ key, AgreeAt key keypad other) :
    other.down = keypad.down ∧ other.flagged = keypad.flagged ∧ other.awaiting = keypad.awaiting :=
  ⟨KeySet.eq_of_has_eq fun key => (h key).down, KeySet.eq_of_has_eq fun key => (h key).flagged, (h 0).awaiting⟩

theorem agreeAt_heedAll_of_reorders {events others : List KeyEvent} (h : KeyEvent.Reorders events others)
    (keypad : Keypad) (key : Key) : AgreeAt key (keypad.heedAll events) (keypad.heedAll others) := by
  have hothers := keypad.agreeAt_heedAll_on key others
  rw [h key.val] at hothers
  exact (agreeAt_heedAll_on key keypad events).trans hothers.symm

theorem exists_last_of_reorders {events others : List KeyEvent} (h : KeyEvent.Reorders events others)
    (keypad : Keypad) : ∃ last, keypad.heedAll others = { keypad.heedAll events with last } := by
  obtain ⟨hdown, hflagged, hawaiting⟩ := eq_of_agreeAt (agreeAt_heedAll_of_reorders h keypad)
  have hwait : (keypad.heedAll others).wait = (keypad.heedAll events).wait := by
    rw [wait_eq_ite, wait_eq_ite, hflagged, hawaiting]
  refine ⟨(keypad.heedAll others).last, ?_⟩
  dsimp only
  rw [← hdown, ← hwait]

/-! ### Bulk writes -/

theorem foldlM_apply {events : List KeyEvent} (h : ∀ event ∈ events, event.key < 16) (keypad : Keypad) :
    events.foldlM apply keypad = .ok (keypad.heedAll events) := by
  induction events generalizing keypad with
  | nil => rfl
  | cons event rest ih =>
    obtain ⟨hevent, hrest⟩ := List.forall_mem_cons.1 h
    have happly : keypad.apply event = .ok (keypad.heed event) := by
      simp only [apply, heed, KeyEvent.target?, dif_pos hevent]
    rw [List.foldlM_cons, happly]
    exact ih hrest (keypad.heed event)

/-- At each key a bulk write is the write of this key. -/
theorem agreeAt_setAll (keypad : Keypad) (target : KeySet) (key : Key) :
    AgreeAt key (keypad.setAll target) (keypad.heed (KeyEvent.toward target key)) := by
  have hdown : (keypad.heed (KeyEvent.toward target key)).down.has key = target.has key := by
    rw [has_down_heed]
    exact if_pos rfl
  refine ⟨hdown, ?_, ?_⟩
  · rw [has_flagged_heed, has_flagged_setAll, hdown]
  · rw [awaiting_heed, awaiting_setAll]

theorem agreeAt_setAll_heedAll {order : List Key} (h : order.Perm (List.finRange 16)) (keypad : Keypad)
    (target : KeySet) (key : Key) :
    AgreeAt key (keypad.setAll target) (keypad.heedAll (order.map (KeyEvent.toward target))) := by
  have hon := keypad.agreeAt_heedAll_on key (order.map (KeyEvent.toward target))
  rw [KeyEvent.on_map_toward h] at hon
  exact (keypad.agreeAt_setAll target key).trans hon.symm

/-- The key goes from up to down when the keys take the target. -/
def GoesDown (keypad : Keypad) (target : KeySet) (key : Key) : Prop :=
  keypad.down.has key = false ∧ target.has key = true

theorem has_pressed_iff {keypad : Keypad} {target : KeySet} {key : Key} :
    KeySet.has (target &&& ~~~keypad.down) key = true ↔ keypad.GoesDown target key := by
  simp [GoesDown, and_comm]

theorem last_setAll_of_goesDown {keypad : Keypad} {target : KeySet} {key : Key} (h : keypad.GoesDown target key)
    (hl : ∀ other, other < key → ¬keypad.GoesDown target other) :
    (keypad.setAll target).last = some ⟨key, false, true⟩ := by
  have hleast : KeySet.least? (target &&& ~~~keypad.down) = some key := by
    refine KeySet.least?_eq_some_iff.2 ⟨has_pressed_iff.2 h, fun other hlt => ?_⟩
    exact Bool.eq_false_iff.2 fun hother => hl other hlt (has_pressed_iff.1 hother)
  rw [setAll, hleast]
  rfl

theorem last_setAll_of_not_goesDown {keypad : Keypad} {target : KeySet}
    (h : ∀ key, ¬keypad.GoesDown target key) : (keypad.setAll target).last = keypad.last := by
  have hleast : KeySet.least? (target &&& ~~~keypad.down) = none :=
    KeySet.least?_eq_none_iff.2 fun key => Bool.eq_false_iff.2 fun hkey => h key (has_pressed_iff.1 hkey)
  rw [setAll, hleast]
  rfl

/-- A bulk write does to the keys and to the wait what writing all keys one by one does, in any order.  During a wait it
flags the keys that go down and keeps the earlier flags, and its last transition is the press of the lowest of them; if
none goes down, the last transition stays. -/
theorem setAll_eq_writes (keypad : Keypad) (target : KeySet) :
    (∀ order : List Key, order.Perm (List.finRange 16) →
      ∃ written, (order.map (KeyEvent.toward target)).foldlM apply keypad = .ok written ∧
        written.down = (keypad.setAll target).down ∧ written.flagged = (keypad.setAll target).flagged ∧
        written.awaiting = (keypad.setAll target).awaiting) ∧
    (keypad.setAll target).down = target ∧
    (keypad.setAll target).awaiting = keypad.awaiting ∧
    (∀ key, (keypad.setAll target).flagged.has key ↔
      keypad.flagged.has key ∨ keypad.awaiting ∧ keypad.GoesDown target key) ∧
    (∀ key, keypad.GoesDown target key → (∀ other, other < key → ¬keypad.GoesDown target other) →
      (keypad.setAll target).last = some ⟨key, false, true⟩) ∧
    ((∀ key, ¬keypad.GoesDown target key) → (keypad.setAll target).last = keypad.last) := by
  refine ⟨?_, rfl, keypad.awaiting_setAll target, ?_, ?_, last_setAll_of_not_goesDown⟩
  · intro order h
    have hvalid : ∀ event ∈ order.map (KeyEvent.toward target), event.key < 16 := by
      intro event hevent
      obtain ⟨key, -, rfl⟩ := List.mem_map.1 hevent
      exact key.isLt
    exact ⟨_, foldlM_apply hvalid keypad, eq_of_agreeAt (agreeAt_setAll_heedAll h keypad target)⟩
  · intro key
    simp [has_flagged_setAll, GoesDown, and_comm]
  · intro key hkey hl
    exact last_setAll_of_goesDown hkey hl

/-- From the highest key down to the lowest, on a keypad that awaits a press, with one key down and one flagged. -/
theorem setAll_eq_writes_reversed :
    let keypad : Keypad := { down := 0x0002, wait := some 0x0100 }
    ∃ written, ((List.finRange 16).reverse.map (KeyEvent.toward 0x0018)).foldlM apply keypad = .ok written ∧
      written.down = 0x0018 ∧ written.flagged = 0x0118 ∧ (keypad.setAll 0x0018).last = some ⟨3, false, true⟩ ∧
      (keypad.setAll 0x0002).last = none := by
  intro keypad
  obtain ⟨hwrites, -, -, -, hlast, -⟩ := keypad.setAll_eq_writes 0x0018
  obtain ⟨-, -, -, -, -, hkept⟩ := keypad.setAll_eq_writes 0x0002
  obtain ⟨written, hwritten, hdown, hflagged, -⟩ := hwrites _ (List.reverse_perm _)
  have hset : (keypad.setAll 0x0018).down = 0x0018 ∧ (keypad.setAll 0x0018).flagged = 0x0118 := by decide
  refine ⟨written, hwritten, hdown.trans hset.1, hflagged.trans hset.2, hlast 3 ?_ ?_, hkept ?_⟩
  · unfold GoesDown
    decide
  · unfold GoesDown
    decide
  · unfold GoesDown
    decide

end Keypad

namespace Machine

/-! ### Machines -/

/-- The second machine is the first with some other last transition of its keypad. -/
def SameButLast (machine other : Machine) : Prop :=
  ∃ last, other = { machine with keypad := { machine.keypad with last } }

/-- The second machine takes every session as the first does: each command that follows has the same answer, with the
frame that it shows, and the same records, and the machines differ in the last transition at most. -/
def Indistinguishable (machine other : Machine) : Prop :=
  ∀ commands, (machine.after commands).SameButLast (other.after commands) ∧
    ∀ command, ((other.after commands).perform command).answer = ((machine.after commands).perform command).answer ∧
      ((other.after commands).perform command).log = ((machine.after commands).perform command).log

namespace SameInside

variable {machine other : Machine}

/-- What a cycle does to the sound timer does not depend on the last transition. -/
theorem sound_cycle (h : machine.SameInside other) (hs : other.sound = machine.sound) :
    other.cycle.machine.sound = machine.cycle.machine.sound := by
  obtain ⟨sound, last, rfl⟩ := h
  let changed : Peripherals := { machine.peripherals with sound, keypad := { machine.keypad with last } }
  obtain ⟨later, hcycle, hlater⟩ := machine.cycle_attach_of_eq changed rfl rfl rfl rfl
  have hsound : later.sound = machine.cycle.machine.peripherals.sound := by
    rcases hlater with ⟨hp, rfl⟩ | ⟨instruction, hp, rfl⟩
    · rw [hp]
      exact hs
    · rw [hp]
      cases instruction
      -- the only instruction that writes to the sound timer
      case setSound x => rfl
      all_goals exact hs
  change (machine.attach changed).cycle.machine.sound = _
  rw [hcycle]
  exact hsound

theorem timing_eq (h : machine.SameInside other) : other.timing = machine.timing := by
  obtain ⟨sound, last, rfl⟩ := h
  rfl

theorem sound_elapse (h : machine.SameInside other) (hs : other.sound = machine.sound) :
    other.elapse.sound = machine.elapse.sound := by
  unfold Machine.elapse
  rw [h.timing_eq]
  cases machine.timing
  · exact congrArg Timer.tick hs
  · exact hs

theorem sound_step (h : machine.applyPending.SameInside other.applyPending) (hs : other.sound = machine.sound) :
    other.step.machine.sound = machine.step.machine.sound := by
  have hc := h.cycle
  simp only [Machine.step, hc.answer_eq]
  split
  · exact hc.machine.sound_elapse (h.sound_cycle hs)
  · exact h.sound_cycle hs

end SameInside

namespace SameButLast

variable {machine other : Machine}

theorem sameInside (h : machine.SameButLast other) : machine.SameInside other := by
  obtain ⟨last, rfl⟩ := h
  exact ⟨machine.sound, last, rfl⟩

theorem sound_eq (h : machine.SameButLast other) : other.sound = machine.sound := by
  obtain ⟨last, rfl⟩ := h
  rfl

theorem of_sameInside (h : machine.SameInside other) (hs : other.sound = machine.sound) :
    machine.SameButLast other := by
  obtain ⟨sound, last, rfl⟩ := h
  obtain rfl : sound = machine.sound := hs
  exact ⟨last, rfl⟩

/-- For a step it is enough that the machines are the same once the pending events reached the keypads. -/
theorem step_of_applyPending (h : machine.applyPending.SameButLast other.applyPending) :
    other.step.answer = machine.step.answer ∧ machine.step.machine.SameButLast other.step.machine := by
  have hc := h.sameInside.cycle
  refine ⟨hc.answer_eq, of_sameInside ?_ (h.sameInside.sound_step h.sound_eq)⟩
  simp only [Machine.step, hc.answer_eq]
  split
  · exact hc.machine.elapse
  · exact hc.machine

theorem sound_perform (h : machine.SameButLast other) (command : Command) :
    (other.perform command).machine.sound = (machine.perform command).machine.sound := by
  have hs := h.sound_eq
  by_cases hk : command.keepsProgram
  · cases command with
    | step =>
      rw [machine_perform_step, machine_perform_step]
      exact h.sameInside.applyPending.sound_step hs
    | tick events =>
      have hpolled : { machine with keypad := machine.keypad.heedAll events }.SameInside
          { other with keypad := other.keypad.heedAll events } := by
        obtain ⟨last, rfl⟩ := h
        obtain ⟨later, hheed⟩ := machine.keypad.heedAll_with_last last events
        exact ⟨machine.sound, later, by simp only [hheed]⟩
      rw [machine_perform_tick, machine_perform_tick]
      exact hpolled.applyPending.sound_step hs
    | setKey event =>
      rw [machine_perform_setKey, machine_perform_setKey]
      exact hs
    | tickTimers => exact congrArg Timer.tick hs
    | setKeys _ | enqueue _ | supply _ => exact hs
    | load _ | loadRom _ | reset => cases hk
  · by_cases hr : command.restarts
    · obtain ⟨memory, hm⟩ := machine_perform_of_restarts (restarts_iff.2 hr)
      obtain ⟨memory', hm'⟩ := machine_perform_of_restarts (restarts_iff.2 hr)
      rw [hm, hm']
      rfl
    · rw [machine_perform_of_refused hr hk, machine_perform_of_refused hr hk]
      exact hs

/-- Each command is answered alike, and leaves such machines behind. -/
theorem perform (h : machine.SameButLast other) (command : Command) :
    (machine.perform command).machine.SameButLast (other.perform command).machine :=
  of_sameInside (h.sameInside.perform command).machine (h.sound_perform command)

theorem after (h : machine.SameButLast other) (commands : List Command) :
    (machine.after commands).SameButLast (other.after commands) := by
  induction commands generalizing machine other with
  | nil => exact h
  | cons command rest ih => exact ih (h.perform command)

end SameButLast

/-- Nothing but the last transition tells such machines apart. -/
theorem indistinguishable_iff {machine other : Machine} :
    machine.Indistinguishable other ↔ machine.SameButLast other := by
  refine ⟨fun h => (h []).1, fun h commands => ?_⟩
  have hafter := h.after commands
  refine ⟨hafter, fun command => ?_⟩
  have hreport := hafter.sameInside.perform command
  exact ⟨hreport.answer_eq, hreport.log_eq⟩

/-! ### Events for a machine -/

section Reorders

variable {events others : List KeyEvent} (h : KeyEvent.Reorders events others) (machine : Machine)

include h

theorem sameButLast_map_setKey :
    (machine.after (events.map .setKey)).SameButLast (machine.after (others.map .setKey)) := by
  obtain ⟨last, hlast⟩ := Keypad.exists_last_of_reorders h machine.keypad
  rw [after_map_setKey, after_map_setKey, hlast]
  exact ⟨last, rfl⟩

theorem sameButLast_applyPending :
    { machine with pending := events ++ machine.pending }.applyPending.SameButLast
      { machine with pending := others ++ machine.pending }.applyPending := by
  obtain ⟨last, hlast⟩ := Keypad.exists_last_of_reorders (h.append_right machine.pending) machine.keypad
  refine ⟨last, ?_⟩
  simp only [applyPending, hlast]

theorem stepWith_of_reorders (path : InputPath) :
    (machine.stepWith others path).answer = (machine.stepWith events path).answer ∧
      (machine.stepWith events path).machine.SameButLast (machine.stepWith others path).machine := by
  obtain ⟨hm, ha⟩ := machine.stepWith_eq_queue events path
  obtain ⟨hm', ha'⟩ := machine.stepWith_eq_queue others path
  rw [hm, ha, hm', ha']
  exact (sameButLast_applyPending h machine).step_of_applyPending

theorem dropped_perm : (dropped others).Perm (dropped events) :=
  (h.perm.filter _).map _

/-- The records of the events whose key does not exist change places with the events. -/
theorem log_stepWith_perm (path : InputPath) :
    (machine.stepWith others path).log.Perm (machine.stepWith events path).log := by
  have hqueue : (machine.stepWith others .queue).log.Perm (machine.stepWith events .queue).log := by
    have hc := (sameButLast_applyPending h machine).sameInside.cycle
    simp only [stepWith, step, hc.log_eq]
    exact (dropped_perm (h.append_right machine.pending)).append_right _
  cases path with
  | poll =>
    rw [log_stepWith_poll, log_stepWith_poll]
    exact hqueue
  | queue => exact hqueue
  | write =>
    have hlog := ((sameButLast_map_setKey h machine).sameInside.step).log_eq
    exact List.Perm.of_eq hlog

end Reorders

theorem shown_eq_of_sameButLast {report other : Report (Except Fault Outcome)} (ha : other.answer = report.answer)
    (hm : report.machine.SameButLast other.machine) : other.shown = report.shown := by
  obtain ⟨last, hm⟩ := hm
  simp only [Report.shown, ha, hm]

/-- Two lists of key events that have the same events for each key in the same order do the same to the keys, to the
flagged presses and to the wait of any keypad.  Machines to whose keys the one and the other were written cannot be told
apart from then on, except by the last transition.  The same holds of machines that made a step with the one and the
other, however the events came in: the answers of the steps are the same, the same frame is shown, and the records
differ in nothing but the order of the dropped events. -/
theorem reordered_session {events others : List KeyEvent} (h : KeyEvent.Reorders events others) :
    (∀ keypad : Keypad, (keypad.heedAll others).down = (keypad.heedAll events).down ∧
      (keypad.heedAll others).flagged = (keypad.heedAll events).flagged ∧
      (keypad.heedAll others).awaiting = (keypad.heedAll events).awaiting) ∧
    ∀ machine : Machine,
      (machine.after (events.map .setKey)).Indistinguishable (machine.after (others.map .setKey)) ∧
      ∀ path : InputPath,
        let report := machine.stepWith events path
        let same := machine.stepWith others path
        same.answer = report.answer ∧ same.shown = report.shown ∧ same.log.Perm report.log ∧
          report.machine.Indistinguishable same.machine := by
  refine ⟨fun keypad => Keypad.eq_of_agreeAt (Keypad.agreeAt_heedAll_of_reorders h keypad), fun machine => ?_⟩
  refine ⟨indistinguishable_iff.2 (sameButLast_map_setKey h machine), fun path => ?_⟩
  intro report same
  obtain ⟨ha, hm⟩ := stepWith_of_reorders h machine path
  exact ⟨ha, shown_eq_of_sameButLast ha hm, log_stepWith_perm h machine path,
    indistinguishable_iff.2 hm⟩

/-- A tap, a press and an event whose key does not exist, in two orders, for a machine that waits. -/
theorem reordered_session_tap :
    let events : List KeyEvent := [⟨3, true⟩, ⟨16, true⟩, ⟨5, true⟩, ⟨3, false⟩]
    let others : List KeyEvent := [⟨5, true⟩, ⟨3, true⟩, ⟨3, false⟩, ⟨16, true⟩]
    let machine := (create .external {}).machine.after [.load [0xF1, 0x0A], .step]
    KeyEvent.Reorders events others ∧
      (machine.stepWith others .queue).answer = (machine.stepWith events .queue).answer ∧
      (machine.stepWith others .write).machine.keypad.down = (machine.stepWith events .write).machine.keypad.down := by
  intro events others machine
  have h : KeyEvent.Reorders events others := by
    intro key
    by_cases h₃ : 3 = key
    · subst h₃
      rfl
    · by_cases h₅ : 5 = key
      · subst h₅
        rfl
      · simp [KeyEvent.on, events, others, List.filter_cons, h₃, h₅]
  clear_value machine
  obtain ⟨-, hmachine⟩ := reordered_session h
  obtain ⟨ha, -⟩ := (hmachine machine).2 .queue
  obtain ⟨-, -, -, hwrite⟩ := (hmachine machine).2 .write
  have hdown : ∀ {first second : Machine}, first.SameButLast second → second.keypad.down = first.keypad.down := by
    rintro first second ⟨last, rfl⟩
    rfl
  exact ⟨h, ha, hdown (indistinguishable_iff.1 hwrite)⟩

end Machine

end Chip8
