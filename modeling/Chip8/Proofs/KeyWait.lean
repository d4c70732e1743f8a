import Chip8.Proofs.Keypad
import Chip8.Proofs.Reachable
import Mathlib.Data.List.Induction

/-!
# Waiting for a key press

An instruction that asks for a key press runs again and again, until a key went down since it ran first.  Which keys
did is told by the states that the keys took in between (`Machine.keyHistory`), whatever commands brought them about.
`Machine.Waits` is the invariant of the wait: the machine stands where it stood, and its keypad has gathered exactly
the keys that went down.
-/

namespace Chip8

namespace Machine

/-! ### The states of the keys -/

/-- The states that a command brings the keys into, one after another. -/
def keyStates (machine : Machine) : Command → List KeySet
  | .step => machine.keypad.states machine.pending
  | .tick events => machine.keypad.states (events ++ machine.pending)
  | command => [(machine.perform command).machine.keypad.down]

/-- The states that the keys take during a session. -/
def keyHistory (machine : Machine) : List Command → List KeySet
  | [] => []
  | command :: rest => machine.keyStates command ++ (machine.perform command).machine.keyHistory rest

/-- The keys that go down during a session, whether or not they are let go again. -/
def presses (machine : Machine) (commands : List Command) : KeySet :=
  KeySet.pressedAlong machine.keypad.down (machine.keyHistory commands)

theorem down_heeded {command : Command} (hs : command.steps) (machine : Machine) :
    (machine.heeded command).keypad.down = (machine.keyStates command).getLastD machine.keypad.down := by
  cases command with
  | step => exact (machine.keypad.getLastD_states machine.pending).symm
  | tick events =>
    rw [keyStates, Keypad.getLastD_states, Keypad.heedAll_append]
    rfl
  | _ => cases hs

/-- No instruction writes to the keys. -/
theorem down_cycle (machine : Machine) : machine.cycle.machine.keypad.down = machine.keypad.down := by
  have hc := machine.cycle_cases
  generalize machine.cycle = report at hc
  cases hc with
  | outside | unsupported | failed => rfl
  | @completed opcode instruction effect _ _ executes =>
    rw [Effect.settled, keypad_of_execute executes]
    cases instruction
    -- the only instruction that writes to the keypad at all
    case awaitKey x => exact machine.keypad.down_takePress
    all_goals rfl

/-- The last of the states is the one that the command leaves behind. -/
theorem down_perform (machine : Machine) (command : Command) :
    (machine.perform command).machine.keypad.down = (machine.keyStates command).getLastD machine.keypad.down := by
  by_cases hs : command.steps
  · rw [machine_perform_of_steps hs, ← down_heeded hs, ← down_cycle (machine.heeded command)]
    split
    · rw [keypad_elapse]
    · rfl
  · cases command with
    | step | tick _ => exact absurd rfl hs
    | _ => rfl

theorem keyHistory_append (machine : Machine) (commands others : List Command) :
    machine.keyHistory (commands ++ others) =
      machine.keyHistory commands ++ (machine.after commands).keyHistory others := by
  induction commands generalizing machine with
  | nil => rfl
  | cons command rest ih =>
    rw [List.cons_append, keyHistory, keyHistory, ih, List.append_assoc]
    rfl

theorem down_after (machine : Machine) (commands : List Command) :
    (machine.after commands).keypad.down = (machine.keyHistory commands).getLastD machine.keypad.down := by
  induction commands generalizing machine with
  | nil => rfl
  | cons command rest ih =>
    have e := machine.down_perform command
    simp only [List.getLastD_eq_getLast?] at e ih ⊢
    rw [keyHistory, List.getLast?_append, Option.getD_or, ← e]
    exact ih (machine.perform command).machine

theorem presses_append (machine : Machine) (commands others : List Command) :
    machine.presses (commands ++ others) = machine.presses commands ||| (machine.after commands).presses others := by
  rw [presses, keyHistory_append, KeySet.pressedAlong_append, ← down_after]
  rfl

theorem presses_singleton (machine : Machine) (command : Command) :
    machine.presses [command] = KeySet.pressedAlong machine.keypad.down (machine.keyStates command) := by
  rw [presses, keyHistory, keyHistory, List.append_nil]

theorem presses_of_not_steps {command : Command} (hs : ¬command.steps) (machine : Machine) :
    machine.presses [command] = (machine.perform command).machine.keypad.down &&& ~~~machine.keypad.down := by
  rw [presses_singleton]
  cases command with
  | step | tick _ => exact absurd rfl hs
  | _ => exact KeySet.pressedAlong_singleton _ _

theorem presses_setKey_ne_zero {machine : Machine} (key : Key) (h : machine.keypad.down.has key = false)
    (rest : List Command) : machine.presses (.setKey ⟨key.val, true⟩ :: rest) ≠ 0 := by
  intro h0
  have hs : ¬(Command.setKey ⟨key.val, true⟩).steps := Bool.false_ne_true
  have ht : KeyEvent.target? ⟨key.val, true⟩ = some key := by simp [KeyEvent.target?]
  have hp := machine.presses_append [.setKey ⟨key.val, true⟩] rest
  rw [List.singleton_append, h0, presses_of_not_steps hs, machine_perform_setKey, Keypad.heed_of_target? ht] at hp
  have hk : KeySet.has 0 key = true := by
    rw [hp]
    simp [Keypad.set, KeySet.has_update, h]
  rw [KeySet.has_zero] at hk
  cases hk

/-! ### Cycles that ask for a key press -/

theorem awaitKey_of_wait_eq_none (machine : Machine) (x : Register) (h : machine.keypad.wait = none) :
    machine.awaitKey x =
      { machine := { machine with keypad := { machine.keypad with wait := some 0 } }
        advance := .hold
        outcome := .waiting } := by
  rw [awaitKey, Keypad.takePress_of_wait_eq_none h]

theorem awaitKey_of_wait_eq_zero (machine : Machine) (x : Register) (h : machine.keypad.wait = some 0) :
    machine.awaitKey x = { machine, advance := .hold, outcome := .waiting } := by
  rw [awaitKey, Keypad.takePress_of_wait_eq_zero h]

theorem awaitKey_of_least? (machine : Machine) (x : Register) {flagged : KeySet} {key : Key}
    (h : machine.keypad.wait = some flagged) (hk : flagged.least? = some key) :
    machine.awaitKey x =
      { machine := { machine with keypad := { machine.keypad with wait := none } }.setRegister x (.ofNat key.val)
        log := [.keyTaken key] } := by
  rw [awaitKey, Keypad.takePress_of_least? h hk]

section Cycle

variable {machine : Machine} {x : Register} (hf : machine.Fetches (Instruction.awaitKey x).encode)

include hf

theorem cycle_of_awaitKey {effect : Effect} (he : machine.advanced.awaitKey x = effect) :
    machine.cycle.machine = effect.settled ∧ machine.cycle.answer = .ok effect.outcome := by
  have hd : Instruction.decode? (Instruction.awaitKey x).encode = some (.awaitKey x) :=
    Instruction.decode?_encode_of_ne fun nnn => Instruction.noConfusion
  rw [cycle_of_fetches hf, dispatch_of_execute_eq_ok hd rfl, he]
  exact ⟨rfl, rfl⟩

/-- Behind the instruction and held, the counter stands where it stood. -/
theorem hold_advanced : Advance.hold.apply machine.advanced.counter = machine.counter := by
  obtain ⟨h, -⟩ := hf
  rw [advanced, Advance.apply_hold_apply_skip, ← UInt16.toNat_inj, UInt16.toNat_mod]
  exact Nat.mod_eq_of_lt (Nat.lt_of_succ_lt h)

theorem cycle_of_wait_eq_none (hw : machine.keypad.wait = none) :
    machine.cycle.machine = { machine with keypad := { machine.keypad with wait := some 0 } } ∧
      machine.cycle.answer = .ok .waiting := by
  obtain ⟨hm, ha⟩ := cycle_of_awaitKey hf (awaitKey_of_wait_eq_none machine.advanced x hw)
  rw [hm, ha, Effect.settled, hold_advanced hf]
  exact ⟨rfl, rfl⟩

theorem cycle_of_wait_eq_zero (hw : machine.keypad.wait = some 0) :
    machine.cycle.machine = machine ∧ machine.cycle.answer = .ok .waiting := by
  obtain ⟨hm, ha⟩ := cycle_of_awaitKey hf (awaitKey_of_wait_eq_zero machine.advanced x hw)
  rw [hm, ha, Effect.settled, hold_advanced hf]
  exact ⟨rfl, rfl⟩

theorem cycle_of_least? {flagged : KeySet} {key : Key} (hw : machine.keypad.wait = some flagged)
    (hk : flagged.least? = some key) :
    machine.cycle.machine =
        { machine.setRegister x (.ofNat key.val) with
          counter := Advance.skip.apply machine.counter
          keypad := { machine.keypad with wait := none } } ∧
      machine.cycle.answer = .ok .plain := by
  obtain ⟨hm, ha⟩ := cycle_of_awaitKey hf (awaitKey_of_least? machine.advanced x hw hk)
  have hn : Advance.next.apply machine.advanced.counter = Advance.skip.apply machine.counter :=
    Advance.apply_next_apply_skip machine.counter
  rw [hm, ha, Effect.settled, ← hn]
  exact ⟨rfl, rfl⟩

end Cycle

/-! ### The wait -/

/-- The machine waits where `start` was, and the flagged keys went down since. -/
structure Waits (start machine : Machine) (flagged : KeySet) : Prop where
  counter_eq : machine.counter = start.counter
  memory_eq : machine.memory = start.memory
  registers_eq : machine.registers = start.registers
  wait_eq : machine.keypad.wait = some flagged

namespace Waits

variable {start machine : Machine} {flagged : KeySet} {command : Command}

theorem elapse (h : Waits start machine flagged) : Waits start machine.elapse flagged := by
  unfold Machine.elapse
  split
  · exact ⟨h.counter_eq, h.memory_eq, h.registers_eq, h.wait_eq⟩
  · exact h

theorem heeded (h : Waits start machine flagged) (hs : command.steps) :
    Waits start (machine.heeded command) (flagged ||| machine.presses [command]) := by
  rw [presses_singleton]
  cases command with
  | step => exact ⟨h.counter_eq, h.memory_eq, h.registers_eq, Keypad.wait_heedAll h.wait_eq machine.pending⟩
  | tick events =>
    have hw := Keypad.wait_heedAll h.wait_eq (events ++ machine.pending)
    rw [Keypad.heedAll_append] at hw
    exact ⟨h.counter_eq, h.memory_eq, h.registers_eq, hw⟩
  | _ => cases hs

/-- Between steps the wait goes on. -/
theorem perform (h : Waits start machine flagged) (hk : command.keepsProgram) (hs : ¬command.steps) :
    Waits start (machine.perform command).machine (flagged ||| machine.presses [command]) := by
  rw [presses_of_not_steps hs]
  cases command with
  | step | tick _ => exact absurd rfl hs
  | load _ | loadRom _ | reset => cases hk
  | setKey event =>
    rw [machine_perform_setKey]
    exact ⟨h.counter_eq, h.memory_eq, h.registers_eq, Keypad.wait_heed h.wait_eq event⟩
  | setKeys down => exact ⟨h.counter_eq, h.memory_eq, h.registers_eq, Keypad.wait_setAll h.wait_eq down⟩
  | tickTimers | enqueue _ | supply _ =>
    have hd : flagged ||| (machine.keypad.down &&& ~~~machine.keypad.down) = flagged := by
      rw [BitVec.and_not_self]
      exact BitVec.or_zero
    exact ⟨h.counter_eq, h.memory_eq, h.registers_eq, h.wait_eq.trans (congrArg some hd.symm)⟩

variable {x : Register} (hf : start.Fetches (Instruction.awaitKey x).encode)

include hf

/-- A step without a press before it goes on waiting. -/
theorem perform_of_eq_zero (h : Waits start machine flagged) (hs : command.steps)
    (h0 : flagged ||| machine.presses [command] = 0) :
    (machine.perform command).answer = .stepped .waiting none ∧ Waits start (machine.perform command).machine 0 := by
  have hh := h.heeded hs
  rw [h0] at hh
  obtain ⟨hm, ha⟩ := cycle_of_wait_eq_zero (hf.of_eq hh.counter_eq hh.memory_eq) hh.wait_eq
  rw [machine_perform_of_ok hs ha, hm]
  exact ⟨answer_perform_of_ne_drawn hs ha Outcome.noConfusion, hh.elapse⟩

/-- A step with presses before it ends the wait. -/
theorem perform_of_least? (h : Waits start machine flagged) (hs : command.steps) {key : Key}
    (hk : (flagged ||| machine.presses [command]).least? = some key) :
    (machine.perform command).answer = .stepped .plain none ∧
      (machine.perform command).machine.registers = (start.setRegister x (.ofNat key.val)).registers ∧
      (machine.perform command).machine.counter = Advance.skip.apply start.counter ∧
      (machine.perform command).machine.keypad.wait = none := by
  have hh := h.heeded hs
  obtain ⟨hm, ha⟩ := cycle_of_least? (hf.of_eq hh.counter_eq hh.memory_eq) hh.wait_eq hk
  have hr : ((machine.heeded command).setRegister x (.ofNat key.val)).registers =
      (start.setRegister x (.ofNat key.val)).registers := by
    simp only [setRegister, hh.registers_eq]
  rw [machine_perform_of_ok hs ha, hm]
  refine ⟨answer_perform_of_ne_drawn hs ha Outcome.noConfusion, ?_, ?_, ?_⟩
  · rw [registers_elapse, hr]
  · rw [counter_elapse, hh.counter_eq]
  · rw [keypad_elapse]

end Waits

theorem wait_heeded_eq_none {machine : Machine} (h : machine.keypad.wait = none) (command : Command) :
    (machine.heeded command).keypad.wait = none := by
  cases command with
  | step => exact Keypad.wait_heedAll_eq_none h _
  | tick events => exact Keypad.wait_heedAll_eq_none (Keypad.wait_heedAll_eq_none h events) _
  | _ => exact h

/-- The first step that asks for a key press begins the wait, whatever keys are down. -/
theorem waits_perform {machine : Machine} {command : Command} {x : Register}
    (hf : machine.Fetches (Instruction.awaitKey x).encode) (hw : machine.keypad.wait = none) (hs : command.steps) :
    (machine.perform command).answer = .stepped .waiting none ∧
      Waits machine (machine.perform command).machine 0 := by
  obtain ⟨hm, ha⟩ := cycle_of_wait_eq_none (fetches_heeded.2 hf) (wait_heeded_eq_none hw command)
  rw [machine_perform_of_ok hs ha, hm]
  refine ⟨answer_perform_of_ne_drawn hs ha Outcome.noConfusion, Waits.elapse ?_⟩
  cases command <;> exact ⟨rfl, rfl, rfl, rfl⟩

/-! ### Sessions -/

/-- No step of the session has a press before it. -/
def Quiet (machine : Machine) (commands : List Command) : Prop :=
  ∀ earlier command later, commands = earlier ++ command :: later → command.steps →
    machine.presses (earlier ++ [command]) = 0

theorem Quiet.of_append {machine : Machine} {commands others : List Command} (h : machine.Quiet (commands ++ others)) :
    machine.Quiet commands := by
  rintro earlier command later rfl hs
  exact h earlier command (later ++ others) (by rw [List.append_assoc, List.cons_append]) hs

theorem quiet_of_presses_eq_zero {machine : Machine} {commands : List Command} (h : machine.presses commands = 0) :
    machine.Quiet commands := by
  rintro earlier command later rfl -
  rw [← List.singleton_append, ← List.append_assoc, presses_append] at h
  exact (BitVec.or_eq_zero_iff.1 h).1

theorem quiet_of_not_steps {commands : List Command} (h : ∀ command ∈ commands, ¬Command.steps command)
    (machine : Machine) : machine.Quiet commands := by
  rintro earlier command later rfl hs
  exact absurd hs (h command (List.mem_append_right _ List.mem_cons_self))

/-- A wait that has begun gathers the presses of a session, while none comes before a step. -/
theorem waits_after {start begun : Machine} {x : Register} (hf : start.Fetches (Instruction.awaitKey x).encode)
    (h : Waits start begun 0) {commands : List Command} (hk : ∀ command ∈ commands, command.keepsProgram)
    (hq : begun.Quiet commands) : Waits start (begun.after commands) (begun.presses commands) := by
  induction commands using List.reverseRecOn with
  | nil => exact h
  | append_singleton commands command ih =>
    have hw := ih (fun other ho => hk other (List.mem_append_left _ ho)) hq.of_append
    have hlast := hk command (List.mem_append_right _ (List.mem_singleton_self command))
    rw [after_append, presses_append]
    by_cases hs : command.steps
    · have h0 : begun.presses commands ||| (begun.after commands).presses [command] = 0 := by
        rw [← presses_append]
        exact hq commands command [] rfl hs
      rw [h0]
      exact (hw.perform_of_eq_zero hf hs h0).2
    · exact hw.perform hlast hs

/-- No step of the session asks for a key press. -/
def AsksNone (machine : Machine) (commands : List Command) : Prop :=
  ∀ earlier command later x, commands = earlier ++ command :: later → command.steps →
    ¬(machine.after earlier).Fetches (Instruction.awaitKey x).encode

theorem wait_cycle_eq_none {machine : Machine} (h : machine.keypad.wait = none)
    (hn : ∀ x, ¬machine.Fetches (Instruction.awaitKey x).encode) : machine.cycle.machine.keypad.wait = none := by
  have hc := machine.cycle_cases
  generalize machine.cycle = report at hc
  cases hc with
  | outside | unsupported | failed => exact h
  | @completed opcode instruction effect fetches decodes executes =>
    rw [← Instruction.encode_of_decode? decodes] at fetches
    rw [Effect.settled, keypad_of_execute executes]
    cases instruction
    case awaitKey x => exact absurd fetches (hn x)
    all_goals exact h

theorem wait_loadReport_eq_none {machine : Machine} (h : machine.keypad.wait = none) (program : List UInt8) :
    (machine.loadReport program).machine.keypad.wait = none := by
  by_cases hp : program.length ≤ Memory.programCapacity
  · rw [loadReport_of_le hp]
    rfl
  · rw [loadReport_of_lt (Nat.not_le.1 hp)]
    exact h

theorem wait_perform_eq_none {machine : Machine} {command : Command} (h : machine.keypad.wait = none)
    (hn : command.steps → ∀ x, ¬machine.Fetches (Instruction.awaitKey x).encode) :
    (machine.perform command).machine.keypad.wait = none := by
  by_cases hs : command.steps
  · have hc := wait_cycle_eq_none (wait_heeded_eq_none h command) fun x hf => hn hs x (fetches_heeded.1 hf)
    rw [machine_perform_of_steps hs]
    split
    · rwa [keypad_elapse]
    · exact hc
  · cases command with
    | step | tick _ => exact absurd rfl hs
    | setKey event =>
      rw [machine_perform_setKey]
      exact Keypad.wait_heed_eq_none h event
    | setKeys down => exact Keypad.wait_setAll_eq_none h down
    | load program => exact wait_loadReport_eq_none h program
    | loadRom rom => exact wait_loadReport_eq_none h rom.bytes
    | reset => rfl
    | tickTimers | enqueue _ | supply _ => exact h

/-- A machine that does not wait goes on so until it is asked for a key press. -/
theorem wait_after_eq_none {machine : Machine} {commands : List Command} (h : machine.keypad.wait = none)
    (hn : machine.AsksNone commands) : (machine.after commands).keypad.wait = none := by
  induction commands generalizing machine with
  | nil => exact h
  | cons command rest ih =>
    refine ih (wait_perform_eq_none h fun hs x => hn [] command rest x rfl hs) ?_
    rintro earlier other later x rfl
    exact hn (command :: earlier) other later x rfl

/-- The life of an instruction that asks for a key press, from its first execution on.  Steps answer that they wait,
with the counter unchanged, as long as no key went down; the first step after a press takes the least key that did; and
then nothing is left over for the next such instruction. -/
theorem awaitKey_session {machine : Machine} {x : Register} {first : Command}
    (hf : machine.Fetches (Instruction.awaitKey x).encode) (hw : machine.keypad.awaiting = false)
    (hs : first.steps) :
    (machine.perform first).answer = .stepped .waiting none ∧
      (machine.perform first).machine.counter = machine.counter ∧
      ∀ commands command, (∀ other ∈ commands, Command.keepsProgram other) → Command.steps command →
        let begun := (machine.perform first).machine
        let presses := begun.presses (commands ++ [command])
        let report := (begun.after commands).perform command
        (presses = 0 → report.answer = .stepped .waiting none ∧ report.machine.counter = machine.counter) ∧
          (presses ≠ 0 → begun.Quiet commands →
            ∃ key, (presses.has key ∧ ∀ other, other < key → presses.has other = false) ∧
              report.answer = .stepped .plain none ∧
              report.machine.registers = (machine.setRegister x (.ofNat key.val)).registers ∧
              report.machine.counter.toNat = (machine.counter.toNat + 2) % 4096 ∧
              report.machine.keypad.awaiting = false ∧
              report.machine.keypad.flagged = 0 ∧
              ∀ further next y, report.machine.AsksNone further → Command.steps next →
                (report.machine.after further).Fetches (Instruction.awaitKey y).encode →
                ((report.machine.after further).perform next).answer = .stepped .waiting none) := by
  obtain ⟨ha, hb⟩ := waits_perform hf (Keypad.awaiting_eq_false_iff.1 hw) hs
  refine ⟨ha, hb.counter_eq, ?_⟩
  intro commands command hk hc begun presses report
  have hsplit : presses = begun.presses commands ||| (begun.after commands).presses [command] :=
    begun.presses_append commands [command]
  constructor
  · intro h0
    -- presses are never lost, so no earlier step had one
    have hq : begun.Quiet commands := (quiet_of_presses_eq_zero h0).of_append
    have hr := (waits_after hf hb hk hq).perform_of_eq_zero hf hc (hsplit.symm.trans h0)
    exact ⟨hr.1, hr.2.counter_eq⟩
  · intro h0 hq
    obtain ⟨key, hkey⟩ : ∃ key, presses.least? = some key := by
      rw [← Option.isSome_iff_exists, Option.isSome_iff_ne_none]
      exact fun hn => h0 (KeySet.least?_eq_none_iff_eq_zero.1 hn)
    obtain ⟨hplain, hregisters, hcounter, hwait⟩ :=
      (waits_after hf hb hk hq).perform_of_least? hf hc (hsplit ▸ hkey)
    refine ⟨key, KeySet.least?_eq_some_iff.1 hkey, hplain, hregisters, ?_, Keypad.awaiting_eq_false_iff.2 hwait, ?_, ?_⟩
    · rw [hcounter, Advance.toNat_apply_skip]
    · rw [Keypad.flagged, hwait]
      rfl
    · intro further next y hn hnext hfetches
      exact (waits_perform hfetches (wait_after_eq_none hwait hn) hnext).1

/-- A key that goes down and up again between two steps ends the wait. -/
theorem awaitKey_session_tap :
    (((create .perStep {}).machine.perform (.load [0xF1, 0x0A])).machine.perform .step).answer =
        .stepped .waiting none ∧
      (((((create .perStep {}).machine.perform (.load [0xF1, 0x0A])).machine.perform .step).machine.after
          [.setKey ⟨7, true⟩, .setKey ⟨7, false⟩]).perform .step).answer =
        .stepped .plain none := by
  have hp : ([0xF1, 0x0A] : List UInt8).length ≤ Memory.programCapacity := by decide
  have hf := fetches_load hp (create .perStep {}).machine
  obtain ⟨ha, -, hlater⟩ := awaitKey_session (show Fetches _ (Instruction.awaitKey 1).encode from hf) rfl
    (show Command.step.steps from rfl)
  obtain ⟨-, hpress⟩ := hlater [.setKey ⟨7, true⟩, .setKey ⟨7, false⟩] .step (by decide) rfl
  have hup : (((create .perStep {}).machine.perform (.load [0xF1, 0x0A])).machine.perform .step).machine.keypad.down.has
      7 = false := by
    rw [down_perform, keyStates, machine_perform_load hp]
    rfl
  obtain ⟨key, -, hplain, -⟩ := hpress (presses_setKey_ne_zero 7 hup _) (quiet_of_not_steps (by decide) _)
  exact ⟨ha, hplain⟩

end Machine

end Chip8
