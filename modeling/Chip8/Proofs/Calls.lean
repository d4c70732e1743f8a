import Chip8.Proofs.Answers
import Mathlib.Data.List.Infix

/-!
# Calls and returns

What a cycle can do to the return addresses: a call puts one on them, a return takes the latest one, and nothing else
touches them (`stack_cycle`).  So the addresses that a call has left stay where they are as long as the stack does not
fall below them (`suffix_stack_after`), and the return at that depth goes back behind the call.
-/

namespace Chip8.Machine

/-! ### Cycles -/

theorem execute_call {machine : Machine} (h : machine.stack.length < stackCapacity) (nnn : Address) :
    machine.execute (.call nnn) =
      .ok { machine := { machine with stack := machine.counter :: machine.stack }
            advance := .jump nnn.toWord
            log := [.called nnn (machine.stack.length + 1)] } := by
  rw [execute, if_pos h]

theorem execute_ret {machine : Machine} {address : UInt16} {rest : List UInt16}
    (h : machine.stack = address :: rest) :
    machine.execute .ret =
      .ok { machine := { machine with stack := rest }, advance := .jump address, log := [.returned address] } := by
  simp [execute, h]

theorem cycle_of_call {machine : Machine} {nnn : Address} (hf : machine.Fetches (Instruction.call nnn).encode)
    (hroom : machine.stack.length < stackCapacity) :
    machine.cycle.machine =
        { machine with counter := nnn.toWord % 4096, stack := machine.advanced.counter :: machine.stack } ∧
      machine.cycle.answer = .ok .plain := by
  have hd : Instruction.decode? (Instruction.call nnn).encode = some (.call nnn) :=
    Instruction.decode?_encode_of_ne fun _ => Instruction.noConfusion
  have he := execute_call (show machine.advanced.stack.length < stackCapacity from hroom) nnn
  rw [cycle_of_fetches hf, dispatch_of_execute_eq_ok hd he]
  exact ⟨rfl, rfl⟩

theorem cycle_of_ret {machine : Machine} {address : UInt16} {rest : List UInt16}
    (hf : machine.Fetches Instruction.ret.encode) (hs : machine.stack = address :: rest) :
    machine.cycle.machine = { machine with counter := address % 4096, stack := rest } ∧
      machine.cycle.answer = .ok .plain := by
  have he := execute_ret (show machine.advanced.stack = address :: rest from hs)
  rw [cycle_of_fetches hf, dispatch_of_execute_eq_ok rfl he]
  exact ⟨rfl, rfl⟩

/-- The ways of a cycle with the return addresses. -/
theorem stack_cycle (machine : Machine) :
    machine.cycle.machine.stack = machine.stack ∨
      (machine.Fetches Instruction.ret.encode ∧ machine.cycle.machine.stack = machine.stack.tail) ∨
      ∃ nnn, machine.Fetches (Instruction.call nnn).encode ∧
        machine.cycle.machine.stack = machine.advanced.counter :: machine.stack := by
  have hc := machine.cycle_cases
  generalize machine.cycle = report at hc
  cases hc with
  | outside | unsupported | failed => exact .inl rfl
  | @completed opcode instruction effect fetches decodes executes =>
    rw [← Instruction.encode_of_decode? decodes] at fetches
    rw [Effect.settled, stack_of_execute executes]
    cases instruction
    case ret => exact .inr (.inl ⟨fetches, rfl⟩)
    case call nnn => exact .inr (.inr ⟨nnn, fetches, rfl⟩)
    all_goals exact .inl rfl

/-! ### Runs -/

/-- The addresses at the bottom of the stack stay there if the stack does not fall below them. -/
theorem suffix_stack_perform {machine : Machine} {base : List UInt16} {command : Command}
    (h : base <:+ machine.stack) (hk : command.keepsProgram)
    (hl : base.length ≤ (machine.perform command).machine.stack.length) :
    base <:+ (machine.perform command).machine.stack := by
  by_cases hs : command.steps
  · obtain ⟨delay, sound, hm⟩ := machine_perform_eq_cycle hs machine
    rw [hm] at hl ⊢
    rw [← machine.stack_heeded command] at h
    rcases (machine.heeded command).stack_cycle with hsame | ⟨-, htail⟩ | ⟨nnn, -, hcons⟩
    · rw [hsame]
      exact h
    · rw [htail] at hl ⊢
      exact List.suffix_of_suffix_length_le h (List.tail_suffix _) hl
    · rw [hcons]
      exact h.trans (List.suffix_cons _ _)
  · obtain ⟨keypad, pending, delay, sound, random, hm⟩ :=
      machine_perform_of_idle hs (not_restarts_of_keepsProgram hk machine)
    rw [hm]
    exact h

theorem suffix_stack_after {machine : Machine} {base : List UInt16} {commands : List Command}
    (h : base <:+ machine.stack) (hk : ∀ command ∈ commands, command.keepsProgram)
    (hl : ∀ earlier later, commands = earlier ++ later → base.length ≤ (machine.after earlier).stack.length) :
    base <:+ (machine.after commands).stack := by
  induction commands generalizing machine with
  | nil => exact h
  | cons command rest ih =>
    have hfirst := suffix_stack_perform h (hk command List.mem_cons_self) (hl [command] rest rfl)
    refine ih hfirst (fun other ho => hk other (List.mem_cons_of_mem _ ho)) ?_
    rintro earlier later rfl
    exact hl (command :: earlier) later rfl

/-! ### A call and its return -/

/-- A step that makes a call and does not fail leaves the address behind the call on the stack. -/
theorem stack_perform_call {machine : Machine} {nnn : Address} {command : Command}
    (hf : machine.Fetches (Instruction.call nnn).encode) (hs : command.steps)
    (hok : ∀ fault, (machine.perform command).answer ≠ .failed fault) :
    (machine.perform command).machine.stack = .ofNat ((machine.counter.toNat + 2) % 4096) :: machine.stack := by
  have hh : (machine.heeded command).Fetches (Instruction.call nnn).encode := fetches_heeded.2 hf
  have hroom : (machine.heeded command).stack.length < stackCapacity := by
    apply Nat.lt_of_not_le
    intro hfull
    exact hok _ (answer_perform_of_error hs (answer_cycle_of_fails (.call hfull) hh))
  obtain ⟨hm, ha⟩ := cycle_of_call hh hroom
  rw [machine_perform_of_ok hs ha, elapse_eq, hm, counter_advanced, stack_heeded]
  cases command <;> rfl

theorem perform_ret {machine : Machine} {address : UInt16} {rest : List UInt16} {command : Command}
    (hf : machine.Fetches Instruction.ret.encode) (hs : command.steps) (hstack : machine.stack = address :: rest) :
    (machine.perform command).answer = .stepped .plain none ∧
      (machine.perform command).machine.counter = address % 4096 ∧
      (machine.perform command).machine.stack = rest := by
  rw [← machine.stack_heeded command] at hstack
  obtain ⟨hm, ha⟩ := cycle_of_ret (fetches_heeded.2 hf) hstack
  rw [machine_perform_of_ok hs ha, elapse_eq, hm]
  exact ⟨answer_perform_of_ne_drawn hs ha Outcome.noConfusion, rfl, rfl⟩

/-- After a call, as long as the stack does not fall below the return address that the call has left, this address
and those before it stay at its bottom; and a return at that depth comes back behind the call, with the stack that the
call found. -/
theorem call_return_match {machine : Machine} {nnn : Address} {first : Command} {commands : List Command}
    (hf : machine.Fetches (Opcode.ofAddress 0x2 nnn)) (hs : first.steps)
    (hok : ∀ fault, (machine.perform first).answer ≠ .failed fault)
    (hk : ∀ command ∈ commands, command.keepsProgram)
    (hl : ∀ earlier later, commands = earlier ++ later →
      machine.stack.length + 1 ≤ ((machine.perform first).machine.after earlier).stack.length) :
    let back : UInt16 := .ofNat ((machine.counter.toNat + 2) % 4096)
    let begun := (machine.perform first).machine
    (∀ earlier later, commands = earlier ++ later → back :: machine.stack <:+ (begun.after earlier).stack) ∧
      ∀ last, Command.steps last → (begun.after commands).Fetches 0x00EE →
        (begun.after commands).stack.length = machine.stack.length + 1 →
        ((begun.after commands).perform last).answer = .stepped .plain none ∧
          ((begun.after commands).perform last).machine.counter = back ∧
          ((begun.after commands).perform last).machine.stack = machine.stack := by
  intro back begun
  have hbegun : begun.stack = back :: machine.stack := stack_perform_call hf hs hok
  have hkept : ∀ earlier later, commands = earlier ++ later →
      back :: machine.stack <:+ (begun.after earlier).stack := by
    rintro earlier later rfl
    refine suffix_stack_after ⟨[], hbegun.symm⟩ (fun command hc => hk command (List.mem_append_left _ hc)) ?_
    rintro before between rfl
    exact hl before (between ++ later) (List.append_assoc _ _ _)
  refine ⟨hkept, ?_⟩
  intro last hlast hret hlength
  have hstack := (hkept commands [] (List.append_nil _).symm).eq_of_length hlength.symm
  obtain ⟨ha, hc, hrest⟩ := perform_ret hret hlast hstack.symm
  refine ⟨ha, ?_, hrest⟩
  rw [hc]
  apply UInt16.toNat_inj.1
  simp only [back, UInt16.toNat_mod, UInt16.toNat_ofNat', UInt16.reduceToNat]
  omega

/-- A call of a routine that calls another one, which waits for a key and returns. -/
theorem call_return_match_nested :
    let program := [0x22, 0x04, 0x00, 0x00, 0x22, 0x08, 0x00, 0xEE, 0xF0, 0x0A, 0x00, 0xEE]
    let loaded := (create .perStep {}).machine.after [.load program]
    let begun := (loaded.perform .step).machine
    let commands : List Command := [.step, .step, .setKey ⟨7, true⟩, .tickTimers, .tick [], .step]
    (begun.after [.step]).stack = [0x206, 0x202] ∧
      (∀ earlier later, commands = earlier ++ later → [0x202] <:+ (begun.after earlier).stack) ∧
      ((begun.after commands).perform .step).machine.counter = 0x202 ∧
      ((begun.after commands).perform .step).machine.stack = [] := by
  intro program loaded begun commands
  obtain ⟨hcounter, hhigh, hlow, hstack, hok, hdeeper⟩ :
      loaded.counter.toNat = 0x200 ∧ loaded.memory[0x200] = 0x22 ∧ loaded.memory[0x201] = 0x04 ∧
        loaded.stack = [] ∧ (loaded.heeded .step).cycle.answer.isOk ∧
        (begun.after [.step]).stack = [0x206, 0x202] := by
    decide +kernel
  have hlengths : ∀ earlier ∈ commands.inits, 1 ≤ (begun.after earlier).stack.length := by decide +kernel
  obtain ⟨hback, hreturn, hends, hlength⟩ :
      (begun.after commands).counter.toNat = 0x206 ∧ (begun.after commands).memory[0x206] = 0x00 ∧
        (begun.after commands).memory[0x207] = 0xEE ∧ (begun.after commands).stack.length = 1 := by
    decide +kernel
  have hkeeps : ∀ command ∈ commands, command.keepsProgram := by decide
  have hf : loaded.Fetches (Opcode.ofAddress 0x2 0x204) := fetches_of_bytes hcounter (by decide) hhigh hlow (by decide)
  have hret : (begun.after commands).Fetches 0x00EE := fetches_of_bytes hback (by decide) hreturn hends (by decide)
  clear_value loaded commands
  have hcalled : ∀ fault, (loaded.perform .step).answer ≠ .failed fault := by
    intro fault hfail
    rw [answer_cycle_of_failed rfl hfail] at hok
    cases hok
  have hl : ∀ earlier later, commands = earlier ++ later →
      loaded.stack.length + 1 ≤ (begun.after earlier).stack.length := by
    rintro earlier later rfl
    rw [hstack]
    exact hlengths earlier ((List.mem_inits _ _).2 (List.prefix_append _ _))
  obtain ⟨hkept, hmatch⟩ := call_return_match hf rfl hcalled hkeeps hl
  rw [hstack, hcounter] at hkept hmatch
  obtain ⟨-, hcame, hrest⟩ := hmatch .step rfl hret hlength
  exact ⟨hdeeper, hkept, hcame, hrest⟩

end Chip8.Machine
