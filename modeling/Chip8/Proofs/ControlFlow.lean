import Chip8.Proofs.Frame

/-!
# Where the counter goes

`Machine.advanceAfter` tells which movement an instruction asks for, by the state that it finds.  A step that completes
makes the movement that belongs to the opcode at the counter, `Machine.advanceOver`, and no other
(`Machine.counter_perform`): on to the next opcode, over it, back, or to the target of a jump.
-/

namespace Chip8

theorem Advance.toNat_apply_next (counter : UInt16) : (next.apply counter).toNat = counter.toNat % 4096 := by
  rw [apply, UInt16.toNat_mod]
  rfl

namespace Machine

/-- The movement of the counter that an instruction asks for, unless it fails. -/
def advanceAfter (machine : Machine) : Instruction → Advance
  | .ret => .jump (machine.stack.headD 0)
  | .jump nnn | .call nnn => .jump nnn.toWord
  | .jumpOffset nnn => .jump (nnn.toWord + (machine.register 0).toUInt16)
  | .skipEqual x nn => .skipIf (machine.register x == nn)
  | .skipNotEqual x nn => .skipIf (machine.register x != nn)
  | .skipSame x y => .skipIf (machine.register x == machine.register y)
  | .skipNotSame x y => .skipIf (machine.register x != machine.register y)
  | .skipKeyDown x => .skipIf (machine.keypad.isPressed (machine.register x).toNat)
  | .skipKeyUp x => .skipIf (!machine.keypad.isPressed (machine.register x).toNat)
  | .awaitKey _ => if machine.keypad.takePress.1.isSome then .next else .hold
  | _ => .next

/-- The movement of the counter over an opcode.  One without an instruction is passed over. -/
def advanceOver (machine : Machine) (opcode : Opcode) : Advance :=
  match Instruction.decode? opcode with
  | some instruction => machine.advanceAfter instruction
  | none => .next

/-! ### Instructions -/

section Effects

variable {machine : Machine} {instruction : Instruction} {effect : Effect}
  (h : machine.execute instruction = .ok effect)

include h

theorem advance_of_execute : effect.advance = machine.advanceAfter instruction := by
  cases instruction
  case ret =>
    simp only [execute] at h
    split at h
    · cases h
    · rename_i address rest hs
      cases h
      simp only [advanceAfter, hs, List.headD_cons]
  case call nnn =>
    simp only [execute] at h
    split at h <;> cases h
    rfl
  case awaitKey x =>
    cases h
    simp only [awaitKey, advanceAfter]
    split <;> simp [*]
  case draw x y n | storeDecimal x | storeRegisters x | loadRegisters x =>
    obtain ⟨_, -, rfl⟩ := map_eq_ok_iff.1 h
    rfl
  all_goals
    cases h
    rfl

theorem counter_of_execute : effect.machine.counter = machine.counter := by
  rw [machine_of_execute h]

end Effects

/-- The counter itself has no part in it. -/
theorem advanceAfter_advanced (machine : Machine) (instruction : Instruction) :
    machine.advanced.advanceAfter instruction = machine.advanceAfter instruction := by
  cases instruction <;> rfl

/-! ### Cycles and steps -/

theorem counter_cycle {machine : Machine} {opcode : Opcode} {outcome : Outcome} (hf : machine.Fetches opcode)
    (h : machine.cycle.answer = .ok outcome) :
    machine.cycle.machine.counter = (machine.advanceOver opcode).apply machine.advanced.counter := by
  rw [cycle_of_fetches hf] at h ⊢
  unfold advanceOver
  cases hd : Instruction.decode? opcode with
  | none =>
    rw [dispatch_of_decode?_eq_none hd]
    exact (Advance.apply_next_apply_skip machine.counter).symm
  | some instruction =>
    cases he : machine.advanced.execute instruction with
    | error fault =>
      rw [dispatch_of_execute_eq_error hd he] at h
      cases h
    | ok effect =>
      rw [dispatch_of_execute_eq_ok hd he]
      dsimp only
      rw [Effect.settled, advance_of_execute he, counter_of_execute he, advanceAfter_advanced]

theorem answer_cycle_of_stepped {machine : Machine} {command : Command} {outcome : Outcome} {shown : Option Screen}
    (hs : command.steps) (h : (machine.perform command).answer = .stepped outcome shown) :
    (machine.heeded command).cycle.answer = .ok outcome := by
  cases ha : (machine.heeded command).cycle.answer with
  | ok other =>
    obtain ⟨_, he, -⟩ := answer_perform_of_ok hs ha
    rw [h] at he
    cases he
    rfl
  | error fault =>
    rw [answer_perform_of_error hs ha] at h
    cases h

theorem counter_perform {machine : Machine} {command : Command} {opcode : Opcode} {outcome : Outcome}
    {shown : Option Screen} (hs : command.steps) (hf : machine.Fetches opcode)
    (h : (machine.perform command).answer = .stepped outcome shown) :
    (machine.perform command).machine.counter =
      ((machine.heeded command).advanceOver opcode).apply machine.advanced.counter := by
  have ha := answer_cycle_of_stepped hs h
  have hfetch : (machine.heeded command).Fetches opcode := fetches_heeded.2 hf
  obtain ⟨keypad, pending, hh⟩ := machine.heeded_eq command
  rw [machine_perform_of_ok hs ha, counter_elapse, counter_cycle hfetch ha, hh]
  rfl

end Machine

end Chip8
