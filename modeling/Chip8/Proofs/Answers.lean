import Chip8.Proofs.Keypad
import Chip8.Proofs.Reachable

/-!
# What a step answers

`Machine.Answers` lists the answers of a step other than the plain one, each with the states in which it is given; the
states speak of the opcode at the counter, of the stack, of the index and of the keypad alone.  No other answer is
given, and in no other state.
-/

namespace Chip8.Machine

/-! ### Instructions at the counter -/

theorem fails_advanced_iff {machine : Machine} {instruction : Instruction} {fault : Fault} :
    Fails machine.advanced instruction fault ↔ Fails machine instruction fault := by
  constructor <;> intro h <;> cases h with
  | ret h => exact .ret h
  | call h => exact .call h
  | draw h => exact .draw h
  | storeDecimal h => exact .storeDecimal h
  | storeRegisters h => exact .storeRegisters h
  | loadRegisters h => exact .loadRegisters h

theorem outcomeAfter_advanced (machine : Machine) (instruction : Instruction) :
    machine.advanced.outcomeAfter instruction = machine.outcomeAfter instruction := by
  cases instruction <;> rfl

theorem answer_cycle_of_fails {machine : Machine} {instruction : Instruction} {fault : Fault}
    (h : Fails machine instruction fault) (hf : machine.Fetches instruction.encode) :
    machine.cycle.answer = .error fault := by
  have hd : Instruction.decode? instruction.encode = some instruction := by
    apply Instruction.decode?_encode <;> rintro rfl <;> cases h
  have he := execute_eq_error_iff.2 (fails_advanced_iff.2 h)
  rw [cycle_of_fetches hf, dispatch_of_execute_eq_error hd he]

theorem answer_cycle_of_not_fails {machine : Machine} (instruction : Instruction)
    (hd : Instruction.decode? instruction.encode = some instruction)
    (h : ∀ fault, ¬Fails machine instruction fault) (hf : machine.Fetches instruction.encode) :
    machine.cycle.answer = .ok (machine.outcomeAfter instruction) := by
  cases he : machine.advanced.execute instruction with
  | error fault => exact absurd (fails_advanced_iff.1 (execute_eq_error_iff.1 he)) (h fault)
  | ok effect =>
    rw [cycle_of_fetches hf, dispatch_of_execute_eq_ok hd he, ← outcomeAfter_advanced, ← outcome_of_execute he]

/-! ### Answers -/

/-- The answers other than the plain one, for a machine without pending key events. -/
inductive Answers (machine : Machine) : Except Fault Outcome → Prop
  | noOpcode (h : machine.counter = 0xFFF) : Answers machine (.error (.noOpcode 0xFFF 4096))
  | stackEmpty (fetches : machine.Fetches 0x00EE) (h : machine.stack = []) : Answers machine (.error .stackEmpty)
  | stackFull {nnn : Address} (fetches : machine.Fetches (Opcode.ofAddress 0x2 nnn))
      (h : machine.stack.length = 16) : Answers machine (.error .stackFull)
  | spriteOutside {x y : Register} {n : Fin 16} (fetches : machine.Fetches (Opcode.ofPair 0xD x y n.val))
      (h : 4096 < machine.index.toNat + n.val) : Answers machine (.error (.outOfBounds machine.index.toNat))
  | digitsOutside {x : Register} (fetches : machine.Fetches (Opcode.ofByte 0xF x 0x33))
      (h : 4096 < machine.index.toNat + 3) : Answers machine (.error (.outOfBounds machine.index.toNat))
  | registersOutside {x : Register}
      (fetches : machine.Fetches (Opcode.ofByte 0xF x 0x55) ∨ machine.Fetches (Opcode.ofByte 0xF x 0x65))
      (h : 4096 < machine.index.toNat + (x.val + 1)) : Answers machine (.error (.outOfBounds machine.index.toNat))
  | waiting {x : Register} (fetches : machine.Fetches (Opcode.ofByte 0xF x 0x0A))
      (h : machine.keypad.awaiting = false ∨ machine.keypad.flagged = 0) : Answers machine (.ok .waiting)
  | cleared (fetches : machine.Fetches 0x00E0) : Answers machine (.ok .drawn)
  | drawn {x y : Register} {n : Fin 16} (fetches : machine.Fetches (Opcode.ofPair 0xD x y n.val))
      (h : machine.index.toNat + n.val ≤ 4096) : Answers machine (.ok .drawn)
  | unsupported {opcode : Opcode} (fetches : machine.Fetches opcode)
      (h : ∀ instruction : Instruction, opcode ≠ instruction.encode) : Answers machine (.ok (.unsupported opcode))

/-- Every answer of the list is given in its states. -/
theorem Answers.answer_cycle {machine : Machine} {answer : Except Fault Outcome} (h : Answers machine answer) :
    machine.cycle.answer = answer := by
  cases h with
  | noOpcode h =>
    have hc : machine.counter.toNat = 0xFFF := by rw [h]; rfl
    rw [cycle_of_le (by omega), hc]
  | stackEmpty fetches h => exact answer_cycle_of_fails (.ret h) fetches
  | stackFull fetches h => exact answer_cycle_of_fails (.call (Nat.le_of_eq h.symm)) fetches
  | spriteOutside fetches h => exact answer_cycle_of_fails (.draw h) fetches
  | digitsOutside fetches h => exact answer_cycle_of_fails (.storeDecimal h) fetches
  | registersOutside fetches h =>
    rcases fetches with fetches | fetches
    · exact answer_cycle_of_fails (.storeRegisters h) fetches
    · exact answer_cycle_of_fails (.loadRegisters h) fetches
  | @waiting x fetches h =>
    have hd : Instruction.decode? (Instruction.awaitKey x).encode = some (.awaitKey x) := by
      apply Instruction.decode?_encode_of_ne
      intro nnn h
      cases h
    have hn : ∀ fault, ¬Fails machine (.awaitKey x) fault := by
      intro fault hfail
      cases hfail
    rw [answer_cycle_of_not_fails (.awaitKey x) hd hn fetches, outcomeAfter, Keypad.takePress_eq_none_iff.2 h]
    rfl
  | cleared fetches =>
    have hn : ∀ fault, ¬Fails machine .clear fault := by
      intro fault hfail
      cases hfail
    exact answer_cycle_of_not_fails .clear rfl hn fetches
  | @drawn x y n fetches h =>
    have hd : Instruction.decode? (Instruction.draw x y n).encode = some (.draw x y n) := by
      apply Instruction.decode?_encode_of_ne
      intro nnn h
      cases h
    refine answer_cycle_of_not_fails (.draw x y n) hd ?_ fetches
    intro fault hfail
    cases hfail with
    | draw h' => omega
  | unsupported fetches h =>
    rw [cycle_of_fetches fetches, dispatch_of_decode?_eq_none (Instruction.decode?_eq_none_iff.2 h)]

/-- Every answer that is given, unless it is the plain one, is on the list. -/
theorem Bounded.answers_cycle {machine : Machine} (h : machine.Bounded)
    (hp : machine.cycle.answer ≠ .ok .plain) : Answers machine machine.cycle.answer := by
  have hc := machine.cycle_cases
  generalize machine.cycle = report at hc hp
  cases hc with
  | outside hle =>
    have hlt := h.counter_lt
    have e : machine.counter.toNat = 0xFFF := by omega
    dsimp only
    rw [e]
    exact .noOpcode (UInt16.toNat_inj.1 e)
  | unsupported fetches decodes => exact .unsupported fetches (Instruction.decode?_eq_none_iff.1 decodes)
  | failed fetches decodes executes =>
    have hfail := fails_advanced_iff.1 (execute_eq_error_iff.1 executes)
    rw [← Instruction.encode_of_decode? decodes] at fetches
    cases hfail with
    | ret hs => exact .stackEmpty fetches hs
    | call hs => exact .stackFull fetches (Nat.le_antisymm h.length_stack_le hs)
    | draw hs => exact .spriteOutside fetches hs
    | storeDecimal hs => exact .digitsOutside fetches hs
    | storeRegisters hs => exact .registersOutside (.inl fetches) hs
    | loadRegisters hs => exact .registersOutside (.inr fetches) hs
  | @completed opcode instruction effect fetches decodes executes =>
    rw [← Instruction.encode_of_decode? decodes] at fetches
    have ho := outcome_of_execute executes
    rw [outcomeAfter_advanced] at ho
    dsimp only at hp ⊢
    rw [ho] at hp ⊢
    cases instruction
    case clear => exact .cleared fetches
    case draw x y n =>
      -- a sprite that leaves the memory would have failed
      refine .drawn fetches (Nat.le_of_not_lt fun hlt => ?_)
      rw [execute_eq_error_iff.2 (fails_advanced_iff.2 (.draw hlt))] at executes
      cases executes
    case awaitKey x =>
      cases ht : machine.keypad.takePress.1 with
      | none =>
        rw [outcomeAfter, ht]
        exact .waiting fetches (Keypad.takePress_eq_none_iff.1 ht)
      | some key => simp [outcomeAfter, ht] at hp
    all_goals exact absurd rfl hp

private theorem error_ne_plain (fault : Fault) : Except.error fault ≠ .ok Outcome.plain := by
  intro h
  cases h

/-- The answers of the list are given in the states that it tells, and in all other states the plain one.  The faults
of reading an instruction, of loading and of keys are never among them. -/
theorem step_answer_iff {machine : Machine} (h : machine.Reachable) :
    (∀ answer, answer ≠ .ok .plain → (machine.step.answer = answer ↔ Answers machine.applyPending answer)) ∧
      (machine.step.answer = .ok .plain ↔ ∀ answer, ¬Answers machine.applyPending answer) ∧
      (∀ opcode, machine.step.answer ≠ .error (.unsupportedOpcode opcode)) ∧
      (∀ size capacity, machine.step.answer ≠ .error (.programTooLarge size capacity)) ∧
      ∀ key, machine.step.answer ≠ .error (.invalidKey key) := by
  have hb := h.bounded.applyPending
  have hstep : machine.step.answer = machine.applyPending.cycle.answer := rfl
  have hlist : ∀ answer, answer ≠ .ok .plain →
      (machine.step.answer = answer ↔ Answers machine.applyPending answer) := by
    intro answer hp
    constructor
    · rintro rfl
      exact hb.answers_cycle hp
    · exact fun ha => ha.answer_cycle
  have hplain : ∀ {answer}, Answers machine.applyPending answer → answer ≠ .ok .plain := by
    intro answer ha hp
    subst hp
    cases ha
  have hnever : ∀ fault, ¬Answers machine.applyPending (.error fault) → machine.step.answer ≠ .error fault := by
    intro fault hn he
    exact hn ((hlist (.error fault) (error_ne_plain fault)).1 he)
  refine ⟨hlist, ?_, ?_, ?_, ?_⟩
  · constructor
    · intro hp answer ha
      exact hplain ha (((hlist answer (hplain ha)).2 ha).symm.trans hp)
    · intro hn
      by_cases hp : machine.step.answer = .ok .plain
      · exact hp
      · exact absurd (hb.answers_cycle hp) (hn _)
  · intro opcode
    apply hnever
    intro ha
    cases ha
  · intro size capacity
    apply hnever
    intro ha
    cases ha
  · intro key
    apply hnever
    intro ha
    cases ha

/-- A program that begins with a return. -/
theorem step_answer_ret :
    ((create .perStep {}).machine.perform (.load [0x00, 0xEE])).machine.Reachable ∧
      ((create .perStep {}).machine.perform (.load [0x00, 0xEE])).machine.step.answer = .error .stackEmpty := by
  have h := Reachable.perform (.load [0x00, 0xEE]) (.create .perStep {})
  have hf := fetches_load (show [0x00, 0xEE].length ≤ Memory.programCapacity by decide) (create .perStep {}).machine
  exact ⟨h, ((step_answer_iff h).1 (.error .stackEmpty) (error_ne_plain _)).2 (.stackEmpty hf rfl)⟩

end Chip8.Machine
