import Chip8.Proofs.KeyWait
import Mathlib.Data.List.Basic

/-!
# When a machine waits

A machine that awaits a key press stands at an instruction that asks for one (`Reachable.fetches_awaitKey`): that is
where the wait began, and until a step ends it nothing moves the counter or writes to the memory.  So a machine awaits
a press exactly if the latest step since it was in its reset state answered that it waits (`awaiting_after_iff`).
-/

namespace Chip8.Machine

/-! ### Waiting in place -/

/-- If the machine awaits a press, an instruction that asks for one stands at the counter. -/
def WaitsInPlace (machine : Machine) : Prop :=
  machine.keypad.awaiting → ∃ x, machine.Fetches (Instruction.awaitKey x).encode

theorem WaitsInPlace.of_eq {machine other : Machine} (h : machine.WaitsInPlace) (hc : other.counter = machine.counter)
    (hm : other.memory = machine.memory) (ha : other.keypad.awaiting = machine.keypad.awaiting) :
    other.WaitsInPlace := by
  intro hw
  rw [ha] at hw
  obtain ⟨x, hf⟩ := h hw
  exact ⟨x, hf.of_eq hc hm⟩

theorem waitsInPlace_of_awaiting_eq_false {machine : Machine} (h : machine.keypad.awaiting = false) :
    machine.WaitsInPlace := by
  intro hw
  rw [h] at hw
  cases hw

/-- An instruction that asks for a press goes on waiting in its place, or it takes a press and the wait is over. -/
theorem cycle_of_fetches_awaitKey {machine : Machine} {x : Register}
    (hf : machine.Fetches (Instruction.awaitKey x).encode) :
    (machine.cycle.answer = .ok .waiting ∧ machine.cycle.machine.keypad.awaiting ∧
        machine.cycle.machine.counter = machine.counter ∧ machine.cycle.machine.memory = machine.memory) ∨
      (machine.cycle.answer = .ok .plain ∧ machine.cycle.machine.keypad.awaiting = false) := by
  cases hw : machine.keypad.wait with
  | none =>
    obtain ⟨hm, ha⟩ := cycle_of_wait_eq_none hf hw
    rw [hm, ha]
    exact .inl ⟨rfl, rfl, rfl, rfl⟩
  | some flagged =>
    cases hl : flagged.least? with
    | none =>
      obtain rfl := KeySet.least?_eq_none_iff_eq_zero.1 hl
      obtain ⟨hm, ha⟩ := cycle_of_wait_eq_zero hf hw
      rw [hm, ha]
      exact .inl ⟨rfl, by rw [Keypad.awaiting, hw, Option.isSome_some], rfl, rfl⟩
    | some key =>
      obtain ⟨hm, ha⟩ := cycle_of_least? hf hw hl
      rw [hm, ha]
      exact .inr ⟨rfl, rfl⟩

/-- No other instruction answers that it waits. -/
theorem fetches_awaitKey_of_answer {machine : Machine} (h : machine.cycle.answer = .ok .waiting) :
    ∃ x, machine.Fetches (Instruction.awaitKey x).encode := by
  have hc := machine.cycle_cases
  generalize machine.cycle = report at hc h
  cases hc with
  | outside | unsupported | failed => cases h
  | @completed opcode instruction effect fetches decodes executes =>
    rw [← Instruction.encode_of_decode? decodes] at fetches
    have ho : effect.outcome = .waiting := Except.ok.inj h
    rw [outcome_of_execute executes] at ho
    cases instruction
    case awaitKey x => exact ⟨x, fetches⟩
    all_goals cases ho

theorem WaitsInPlace.awaiting_cycle_iff {machine : Machine} (h : machine.WaitsInPlace) :
    machine.cycle.machine.keypad.awaiting ↔ machine.cycle.answer = .ok .waiting := by
  by_cases hx : ∃ x, machine.Fetches (Instruction.awaitKey x).encode
  · obtain ⟨x, hf⟩ := hx
    rcases cycle_of_fetches_awaitKey hf with ⟨ha, hw, -⟩ | ⟨ha, hw⟩
    · exact ⟨fun _ => ha, fun _ => hw⟩
    · rw [ha, hw]
      constructor <;> intro hn <;> cases hn
  · have hwait : machine.keypad.wait = none := by
      rw [← Keypad.awaiting_eq_false_iff, Bool.eq_false_iff]
      exact fun hw => hx (h hw)
    have hafter := wait_cycle_eq_none hwait fun x hf => hx ⟨x, hf⟩
    rw [Keypad.awaiting_eq_false_iff.2 hafter]
    constructor
    · intro hn
      cases hn
    · exact fun ha => absurd (fetches_awaitKey_of_answer ha) hx

theorem WaitsInPlace.cycle {machine : Machine} (h : machine.WaitsInPlace) : machine.cycle.machine.WaitsInPlace := by
  intro hw
  obtain ⟨x, hf⟩ := fetches_awaitKey_of_answer (h.awaiting_cycle_iff.1 hw)
  rcases cycle_of_fetches_awaitKey hf with ⟨-, -, hc, hm⟩ | ⟨-, hn⟩
  · exact ⟨x, hf.of_eq hc hm⟩
  · rw [hn] at hw
    cases hw

/-! ### Commands -/

theorem awaiting_heeded (machine : Machine) (command : Command) :
    (machine.heeded command).keypad.awaiting = machine.keypad.awaiting := by
  cases command with
  | step => exact machine.keypad.awaiting_heedAll machine.pending
  | tick events =>
    have h := machine.keypad.awaiting_heedAll (events ++ machine.pending)
    rw [Keypad.heedAll_append] at h
    exact h
  | _ => rfl

theorem WaitsInPlace.heeded {machine : Machine} (h : machine.WaitsInPlace) (command : Command) :
    (machine.heeded command).WaitsInPlace := by
  intro hw
  rw [awaiting_heeded] at hw
  obtain ⟨x, hf⟩ := h hw
  exact ⟨x, fetches_heeded.2 hf⟩

theorem awaiting_perform_of_idle {machine : Machine} {command : Command} (hs : ¬command.steps)
    (hr : ¬machine.Restarts command) :
    (machine.perform command).machine.keypad.awaiting = machine.keypad.awaiting := by
  by_cases hk : command.keepsProgram
  · cases command with
    | step | tick _ => exact absurd rfl hs
    | load _ | loadRom _ | reset => cases hk
    | setKey event =>
      rw [machine_perform_setKey]
      exact machine.keypad.awaiting_heed event
    | setKeys down => exact machine.keypad.awaiting_setAll down
    | tickTimers | enqueue _ | supply _ => rfl
  · rw [machine_perform_of_not_restarts hk hr]

theorem keypad_perform_of_restarts {machine : Machine} {command : Command} (h : machine.Restarts command) :
    (machine.perform command).machine.keypad = {} := by
  obtain ⟨memory, hm⟩ := machine_perform_of_restarts h
  rw [hm]
  rfl

theorem WaitsInPlace.awaiting_perform_iff {machine : Machine} {command : Command} (h : machine.WaitsInPlace)
    (hs : command.steps) :
    (machine.perform command).machine.keypad.awaiting ↔ (machine.perform command).answer = .stepped .waiting none := by
  have hc := (h.heeded command).awaiting_cycle_iff
  cases ha : (machine.heeded command).cycle.answer with
  | ok outcome =>
    rw [ha] at hc
    rw [machine_perform_of_ok hs ha, keypad_elapse, hc]
    obtain ⟨shown, he, hd⟩ := answer_perform_of_ok hs ha
    constructor
    · intro ho
      cases ho
      exact answer_perform_of_ne_drawn hs ha Outcome.noConfusion
    · intro ho
      rw [he] at ho
      cases ho
      rfl
  | error fault =>
    rw [ha] at hc
    rw [machine_perform_of_steps hs, ha, answer_perform_of_error hs ha]
    constructor
    · intro hw
      cases hc.1 hw
    · intro hn
      cases hn

theorem WaitsInPlace.perform {machine : Machine} (h : machine.WaitsInPlace) (command : Command) :
    (machine.perform command).machine.WaitsInPlace := by
  by_cases hs : command.steps
  · have hc := (h.heeded command).cycle
    rw [machine_perform_of_steps hs]
    split
    · unfold Machine.elapse
      split
      · exact hc.of_eq rfl rfl rfl
      · exact hc
    · exact hc
  · by_cases hr : machine.Restarts command
    · apply waitsInPlace_of_awaiting_eq_false
      rw [keypad_perform_of_restarts hr]
      rfl
    · have ha := awaiting_perform_of_idle hs hr
      obtain ⟨keypad, pending, delay, sound, random, hm⟩ := machine_perform_of_idle hs hr
      rw [hm] at ha ⊢
      exact h.of_eq rfl rfl ha

theorem Reachable.waitsInPlace {machine : Machine} (h : machine.Reachable) : machine.WaitsInPlace := by
  induction h with
  | create timing random => exact waitsInPlace_of_awaiting_eq_false rfl
  | perform command _ ih => exact ih.perform command

/-! ### Sessions -/

/-- The latest step of the session answered that the machine waits, and the machine was not reset since. -/
def WaitedLast (machine : Machine) (commands : List Command) : Prop :=
  ∃ earlier command later, commands = earlier ++ command :: later ∧ command.steps ∧
    ((machine.after earlier).perform command).answer = .stepped .waiting none ∧
    ∀ between other rest, later = between ++ other :: rest →
      ¬other.steps ∧ ¬(machine.after (earlier ++ command :: between)).Restarts other

theorem not_waitedLast_nil (machine : Machine) : ¬machine.WaitedLast [] := by
  rintro ⟨earlier, command, later, h, -⟩
  simp at h

theorem waitedLast_append_singleton {machine : Machine} {commands : List Command} {command : Command} :
    machine.WaitedLast (commands ++ [command]) ↔
      (command.steps ∧ ((machine.after commands).perform command).answer = .stepped .waiting none) ∨
        (¬command.steps ∧ ¬(machine.after commands).Restarts command ∧ machine.WaitedLast commands) := by
  constructor
  · rintro ⟨earlier, waited, later, h, hs, ha, hl⟩
    rcases List.eq_nil_or_concat' later with rfl | ⟨between, last, rfl⟩
    · obtain ⟨rfl, e⟩ := List.append_inj' h rfl
      cases e
      exact .inl ⟨hs, ha⟩
    · rw [← List.cons_append, ← List.append_assoc] at h
      obtain ⟨rfl, e⟩ := List.append_inj' h rfl
      cases e
      obtain ⟨hns, hnr⟩ := hl between command [] rfl
      refine .inr ⟨hns, hnr, earlier, waited, between, rfl, hs, ha, ?_⟩
      rintro before other rest rfl
      exact hl before other (rest ++ [command]) (by simp)
  · rintro (⟨hs, ha⟩ | ⟨hns, hnr, earlier, waited, later, rfl, hs, ha, hl⟩)
    · refine ⟨commands, command, [], rfl, hs, ha, ?_⟩
      intro between other rest h
      simp at h
    · refine ⟨earlier, waited, later ++ [command], by simp, hs, ha, ?_⟩
      intro between other rest h
      rcases List.eq_nil_or_concat' rest with rfl | ⟨middle, last, rfl⟩
      · obtain ⟨rfl, e⟩ := List.append_inj' h rfl
        cases e
        exact ⟨hns, hnr⟩
      · rw [← List.cons_append, ← List.append_assoc] at h
        obtain ⟨rfl, -⟩ := List.append_inj' h rfl
        exact hl between other middle rfl

theorem awaiting_after_iff (timing : Timing) (random : ByteSupply) (commands : List Command) :
    ((create timing random).machine.after commands).keypad.awaiting ↔
      (create timing random).machine.WaitedLast commands := by
  induction commands using List.reverseRecOn with
  | nil =>
    constructor
    · intro h
      cases h
    · exact fun h => absurd h (not_waitedLast_nil _)
  | append_singleton commands command ih =>
    have hp := ((Reachable.create timing random).after commands).waitsInPlace
    rw [after_append, waitedLast_append_singleton]
    change (((create timing random).machine.after commands).perform command).machine.keypad.awaiting ↔ _
    by_cases hs : command.steps
    · rw [hp.awaiting_perform_iff hs]
      simp [hs]
    · by_cases hr : ((create timing random).machine.after commands).Restarts command
      · rw [keypad_perform_of_restarts hr]
        simp [hs, hr, Keypad.awaiting]
      · rw [awaiting_perform_of_idle hs hr, ih]
        simp [hs, hr]

/-! ### The instruction of a wait -/

theorem executing_mem_log_awaitKey {machine : Machine} {x : Register}
    (hf : machine.Fetches (Instruction.awaitKey x).encode) {command : Command} (hs : command.steps)
    {instruction : Instruction} :
    .executing instruction ∈ (machine.perform command).log ↔ instruction = .awaitKey x := by
  have hd : Instruction.decode? (Instruction.awaitKey x).encode = some (.awaitKey x) :=
    Instruction.decode?_encode_of_ne fun nnn => Instruction.noConfusion
  have hl : .executing instruction ∉ ((machine.heeded command).advanced.awaitKey x).log := by
    unfold awaitKey
    split <;> simp
  rw [log_perform_of_steps hs, cycle_of_fetches (fetches_heeded.2 hf), dispatch_of_execute_eq_ok hd rfl,
    List.mem_append]
  simp [executing_notMem_dropped, hl]

/-! ### The whole wait -/

/-- A machine awaits a press exactly if its latest step since creation, reset or load answered that it waits.  Then an
instruction that asks for a press stands at the counter, and the next step executes it and no other; the wait ends when
that instruction took its press, or with the reset of the machine, which leaves neither wait nor press behind. -/
theorem awaiting_session :
    (∀ timing random commands, ((create timing random).machine.after commands).keypad.awaiting ↔
        (create timing random).machine.WaitedLast commands) ∧
      ∀ machine : Machine, machine.Reachable →
        (machine.keypad.awaiting → ∃ x : Register,
          machine.counter.toNat ≤ 0xFFE ∧ machine.Fetches (Opcode.ofByte 0xF x 0x0A) ∧
          (∀ command, Command.steps command → ∀ instruction,
            .executing instruction ∈ (machine.perform command).log ↔ instruction = .awaitKey x) ∧
          ∀ command, (machine.perform command).machine.keypad.awaiting = false →
            (Command.steps command ∧ (machine.perform command).answer = .stepped .plain none) ∨
              machine.Restarts command) ∧
        ∀ command, machine.Restarts command →
          (machine.perform command).machine.keypad.awaiting = false ∧
            (machine.perform command).machine.keypad.flagged = 0 := by
  refine ⟨awaiting_after_iff, ?_⟩
  intro machine h
  constructor
  · intro hw
    obtain ⟨x, hf⟩ := h.waitsInPlace hw
    refine ⟨x, ?_, hf, fun command hs instruction => executing_mem_log_awaitKey hf hs, ?_⟩
    · obtain ⟨hlt, -⟩ := hf
      omega
    · intro command hn
      by_cases hs : command.steps
      · refine .inl ⟨hs, ?_⟩
        have hh : (machine.heeded command).Fetches (Instruction.awaitKey x).encode := fetches_heeded.2 hf
        rcases cycle_of_fetches_awaitKey hh with ⟨ha, hon, -⟩ | ⟨ha, -⟩
        · rw [machine_perform_of_ok hs ha, keypad_elapse, hon] at hn
          cases hn
        · exact answer_perform_of_ne_drawn hs ha Outcome.noConfusion
      · by_cases hr : machine.Restarts command
        · exact .inr hr
        · rw [awaiting_perform_of_idle hs hr, hw] at hn
          cases hn
  · intro command hr
    rw [keypad_perform_of_restarts hr]
    exact ⟨rfl, rfl⟩

/-- A wait that has begun, and a program loaded over it. -/
theorem awaiting_session_load :
    ((create .perStep {}).machine.after [.load [0xF1, 0x0A], .step]).keypad.awaiting ∧
      ((create .perStep {}).machine.after [.load [0xF1, 0x0A], .step]).counter.toNat ≤ 0xFFE ∧
      ((create .perStep {}).machine.after [.load [0xF1, 0x0A], .step, .load [0x12, 0x00]]).keypad.awaiting =
        false := by
  have hp : ([0xF1, 0x0A] : List UInt8).length ≤ Memory.programCapacity := by decide
  have hf := fetches_load hp (create .perStep {}).machine
  have ha := (waits_perform (show Fetches _ (Instruction.awaitKey 1).encode from hf) rfl
    (show Command.step.steps from rfl)).1
  have hlater : ∀ between other rest, ([] : List Command) = between ++ other :: rest → ¬other.steps ∧
      ¬((create .perStep {}).machine.after ([.load [0xF1, 0x0A]] ++ .step :: between)).Restarts other := by
    intro between other rest h
    simp at h
  have hw := (awaiting_session.1 .perStep {} [.load [0xF1, 0x0A], .step]).2
    ⟨[.load [0xF1, 0x0A]], .step, [], rfl, rfl, ha, hlater⟩
  have hreach := (Reachable.create .perStep {}).after [.load [0xF1, 0x0A], .step]
  obtain ⟨x, hc, -⟩ := (awaiting_session.2 _ hreach).1 hw
  have hr : ((create .perStep {}).machine.after [.load [0xF1, 0x0A], .step]).Restarts (.load [0x12, 0x00]) :=
    ⟨Bool.false_ne_true, rfl⟩
  exact ⟨hw, hc, ((awaiting_session.2 _ hreach).2 _ hr).1⟩

end Chip8.Machine
