import Chip8.Proofs.Calls
import Chip8.Proofs.ControlFlow

/-!
# Even addresses

A machine begins at an even address, opcodes are two bytes long and the number of addresses is even.  So the counter and
the return addresses can become odd by the targets of jumps and calls alone (`Machine.Aligned.perform`).  A session
whose jumps all have even targets never comes to the last address, at which there is no whole opcode; behind the
last opcode of the memory it goes on with the first.
-/

namespace Chip8

/-- A jump or a call goes to an even address, on the machine. -/
def Instruction.TargetsEven (machine : Machine) : Instruction → Prop
  | jump nnn | call nnn => nnn.val % 2 = 0
  | jumpOffset nnn => (nnn.val + (machine.register 0).toNat) % 2 = 0
  | _ => True

theorem Instruction.targetsEven_congr {machine other : Machine} (h : other.registers = machine.registers)
    {instruction : Instruction} : instruction.TargetsEven other ↔ instruction.TargetsEven machine := by
  cases instruction <;> simp only [TargetsEven, Machine.register, h]

theorem Advance.skipIf_ne_jump (condition : Bool) (target : UInt16) : skipIf condition ≠ jump target := by
  cases condition <;> exact Advance.noConfusion

/-- A movement leads from an even address to an even one, unless it is a jump to an odd one. -/
theorem Advance.even_apply {advance : Advance} {counter : UInt16} (hc : counter.toNat % 2 = 0)
    (ht : ∀ target, advance = jump target → target.toNat % 2 = 0) : (advance.apply counter).toNat % 2 = 0 := by
  have hlt := counter.toNat_lt
  cases advance with
  | next =>
    rw [toNat_apply_next]
    omega
  | skip =>
    rw [toNat_apply_skip]
    omega
  | hold =>
    simp only [apply, UInt16.toNat_mod, UInt16.toNat_sub, UInt16.reduceToNat]
    omega
  | jump target =>
    have htarget := ht target rfl
    simp only [apply, UInt16.toNat_mod, UInt16.reduceToNat]
    omega

namespace Machine

/-- The counter and the return addresses are even. -/
structure Aligned (machine : Machine) : Prop where
  counter_even : machine.counter.toNat % 2 = 0
  stack_even : ∀ address ∈ machine.stack, address.toNat % 2 = 0

namespace Aligned

variable {machine : Machine}

theorem reset (machine : Machine) : machine.reset.Aligned where
  counter_even := show (UInt16.ofNat Memory.programStart).toNat % 2 = 0 by decide
  stack_even := List.forall_mem_nil _

theorem heeded (h : machine.Aligned) (command : Command) : (machine.heeded command).Aligned := by
  obtain ⟨keypad, pending, hh⟩ := machine.heeded_eq command
  rw [hh]
  exact { h with }

theorem advanced (h : machine.Aligned) : machine.advanced.Aligned :=
  { h with counter_even := Advance.even_apply h.counter_even fun _ => Advance.noConfusion }

/-! ### Instructions -/

/-- A return goes to an even address as a call has left it there. -/
theorem even_of_advanceAfter (h : machine.Aligned) {instruction : Instruction}
    (ht : instruction.TargetsEven machine) {target : UInt16} (ha : machine.advanceAfter instruction = .jump target) :
    target.toNat % 2 = 0 := by
  cases instruction
  case ret =>
    cases ha
    cases hs : machine.stack with
    | nil => rfl
    | cons address rest => exact h.stack_even address (by rw [hs]; exact List.mem_cons_self)
  case jump nnn | call nnn =>
    cases ha
    rw [Address.toNat_toWord]
    exact ht
  case jumpOffset nnn =>
    cases ha
    have heven : (nnn.val + (machine.register 0).toNat) % 2 = 0 := ht
    rw [UInt16.toNat_add, Address.toNat_toWord, UInt8.toNat_toUInt16]
    omega
  case awaitKey x =>
    simp only [advanceAfter] at ha
    split at ha <;> cases ha
  case skipEqual | skipNotEqual | skipSame | skipNotSame | skipKeyDown | skipKeyUp =>
    exact absurd ha (Advance.skipIf_ne_jump _ _)
  -- the others go on with the next opcode
  all_goals cases ha

theorem settled (h : machine.Aligned) {instruction : Instruction} {effect : Effect}
    (he : machine.execute instruction = .ok effect) (ht : instruction.TargetsEven machine) :
    effect.settled.Aligned := by
  constructor
  · rw [Effect.settled, advance_of_execute he, counter_of_execute he]
    exact Advance.even_apply h.counter_even fun _ => h.even_of_advanceAfter ht
  · rw [Effect.settled, stack_of_execute he]
    cases instruction
    case ret => exact fun address hm => h.stack_even address (List.mem_of_mem_tail hm)
    case call nnn => exact List.forall_mem_cons.2 ⟨h.counter_even, h.stack_even⟩
    all_goals exact h.stack_even

/-! ### Steps and commands -/

theorem cycle (h : machine.Aligned)
    (ht : ∀ opcode instruction outcome, machine.Fetches opcode → Instruction.decode? opcode = some instruction →
      machine.cycle.answer = .ok outcome → instruction.TargetsEven machine) : machine.cycle.machine.Aligned := by
  have hc := machine.cycle_cases
  generalize machine.cycle = report at hc ht
  cases hc with
  | outside | failed => exact h
  | unsupported => exact h.advanced
  | completed fetches decodes executes =>
    have heven := ht _ _ _ fetches decodes rfl
    exact h.advanced.settled executes ((Instruction.targetsEven_congr rfl).2 heven)

theorem perform (h : machine.Aligned) {command : Command}
    (ht : ∀ opcode instruction outcome shown, command.steps → machine.Fetches opcode →
      Instruction.decode? opcode = some instruction → (machine.perform command).answer = .stepped outcome shown →
      instruction.TargetsEven machine) : (machine.perform command).machine.Aligned := by
  by_cases hs : command.steps
  · have hc : (machine.heeded command).cycle.machine.Aligned := by
      refine (h.heeded command).cycle fun opcode instruction outcome hf hd ha => ?_
      obtain ⟨shown, hshown, -⟩ := answer_perform_of_ok hs ha
      have heven := ht opcode instruction outcome shown hs (fetches_heeded.1 hf) hd hshown
      obtain ⟨keypad, pending, hh⟩ := machine.heeded_eq command
      rw [hh]
      exact (Instruction.targetsEven_congr rfl).2 heven
    obtain ⟨delay, sound, hm⟩ := machine_perform_eq_cycle hs machine
    rw [hm]
    exact { hc with }
  · by_cases hr : machine.Restarts command
    · obtain ⟨memory, hm⟩ := machine_perform_of_restarts hr
      have hr := reset machine
      rw [hm]
      exact ⟨hr.counter_even, hr.stack_even⟩
    · obtain ⟨keypad, pending, delay, sound, random, hm⟩ := machine_perform_of_idle hs hr
      rw [hm]
      exact { h with }

theorem after (h : machine.Aligned) {commands : List Command}
    (ht : ∀ before instruction outcome, machine.Ran commands before instruction outcome →
      instruction.TargetsEven before) : (machine.after commands).Aligned := by
  induction commands generalizing machine with
  | nil => exact h
  | cons command rest ih =>
    refine ih (h.perform fun opcode instruction outcome shown hs hf hd ha => ?_)
      fun before instruction outcome hran => ?_
    · exact ht machine instruction outcome (ran_cons.2 (.inl ⟨hs, rfl, opcode, shown, hf, hd, ha⟩))
    · exact ht before instruction outcome (ran_cons.2 (.inr hran))

/-- The last address is odd. -/
theorem exists_fetches (h : machine.Aligned) (hb : machine.Bounded) : ∃ opcode, machine.Fetches opcode := by
  have heven := h.counter_even
  have hlt := hb.counter_lt
  exact Machine.exists_fetches (by omega)

end Aligned

/-- A cycle that finds an opcode never fails for want of one. -/
theorem answer_cycle_ne_noOpcode {machine : Machine} {opcode : Opcode} (hf : machine.Fetches opcode)
    (pointer size : Nat) : machine.cycle.answer ≠ .error (.noOpcode pointer size) := by
  intro ha
  have hc := machine.cycle_cases
  generalize machine.cycle = report at hc ha
  cases hc with
  | outside hle =>
    obtain ⟨hlt, -⟩ := hf
    omega
  | unsupported | completed => cases ha
  | failed _ _ executes =>
    cases ha
    cases execute_eq_error_iff.1 executes

/-! ### Sessions -/

/-- In a session of a new machine in which no jump or call that completes goes to an odd address, the counter and the
return addresses are even after each command.  There is an opcode at the counter, so no step fails for want of one; and
a step that goes on to the next opcode, or over one, goes on from the end of the memory with its beginning. -/
theorem even_session {timing : Timing} {random : ByteSupply} {commands : List Command}
    (ht : ∀ before instruction outcome, (create timing random).machine.Ran commands before instruction outcome →
      instruction.TargetsEven before) :
    ∀ earlier later, commands = earlier ++ later →
      let machine := (create timing random).machine.after earlier
      (machine.counter.toNat % 2 = 0 ∧ ∀ address ∈ machine.stack, address.toNat % 2 = 0) ∧
        ∃ opcode, machine.Fetches opcode ∧ ∀ command, Command.steps command →
          let after := machine.perform command
          (∀ pointer size, after.answer ≠ .failed (.noOpcode pointer size)) ∧
            ∀ outcome shown, after.answer = .stepped outcome shown →
              let advance := (machine.heeded command).advanceOver opcode
              (advance = .next → after.machine.counter.toNat = (machine.counter.toNat + 2) % 4096) ∧
                (advance = .skip → after.machine.counter.toNat = (machine.counter.toNat + 4) % 4096) ∧
                (machine.counter = 0xFFE → advance = .next → after.machine.counter = 0x000) := by
  rintro earlier later rfl machine
  have hnew : (create timing random).machine.Aligned := Aligned.reset { timing, random }
  have haligned : machine.Aligned := hnew.after fun before instruction outcome hran =>
    ht before instruction outcome (hran.append later)
  have hbounded : machine.Bounded := ((Reachable.create timing random).after earlier).bounded
  obtain ⟨opcode, hf⟩ := haligned.exists_fetches hbounded
  refine ⟨⟨haligned.counter_even, haligned.stack_even⟩, opcode, hf, ?_⟩
  intro command hs after
  constructor
  · intro pointer size ha
    exact answer_cycle_ne_noOpcode (fetches_heeded.2 hf) pointer size (answer_cycle_of_failed hs ha)
  · intro outcome shown ha advance
    have hcounter : after.machine.counter = advance.apply machine.advanced.counter := counter_perform hs hf ha
    have hadvanced : machine.advanced.counter.toNat = (machine.counter.toNat + 2) % 4096 :=
      Advance.toNat_apply_skip machine.counter
    have hnext : advance = .next → after.machine.counter.toNat = (machine.counter.toNat + 2) % 4096 := by
      intro he
      rw [hcounter, he, Advance.toNat_apply_next, hadvanced, Nat.mod_mod]
    refine ⟨hnext, ?_, ?_⟩
    · intro he
      rw [hcounter, he, Advance.toNat_apply_skip, hadvanced]
      omega
    · intro hlast he
      apply UInt16.toNat_inj.1
      rw [hnext he, hlast]
      rfl

/-- A call of the last opcode of the memory, a key that does not exist, and a tick that goes on with the first. -/
theorem even_session_wrap :
    let machine := (create .external {}).machine.after [.load [0x2F, 0xFE], .step, .setKey ⟨16, true⟩]
    machine.stack = [0x202] ∧ (∀ address ∈ machine.stack, address.toNat % 2 = 0) ∧ machine.counter = 0xFFE ∧
      (machine.perform (.tick [⟨3, true⟩])).machine.counter = 0x000 := by
  have hp : ([0x2F, 0xFE] : List UInt8).length ≤ Memory.programCapacity := by decide
  have hcall := fetches_load hp (create .external {}).machine
  have ht : ∀ before instruction outcome,
      (create .external {}).machine.Ran [.load [0x2F, 0xFE], .step, .setKey ⟨16, true⟩] before instruction outcome →
        instruction.TargetsEven before := by
    -- one command of the three runs an instruction
    intro before instruction outcome hran
    rcases ran_cons.1 hran with ⟨hs, -⟩ | hran
    · cases hs
    refine forall_ran_cons hcall (fun instruction hd => ?_) (fun before instruction outcome hran => ?_) _ _ _ hran
    · cases Option.some.inj hd
      exact show (0xFFE : Address).val % 2 = 0 by decide
    · rcases ran_cons.1 hran with ⟨hs, -⟩ | hran
      · cases hs
      · exact absurd hran not_ran_nil
  have hsession := even_session ht _ [] (List.append_nil _).symm
  generalize hm : (create .external {}).machine.after _ = machine at hsession ⊢
  obtain ⟨hstack, hcounter, hhigh, hlow⟩ :
      machine.stack = [0x202] ∧ machine.counter = 0xFFE ∧ machine.memory[0xFFE] = 0 ∧ machine.memory[0xFFF] = 0 := by
    rw [← hm]
    decide +kernel
  have hlast : machine.Fetches (Opcode.ofBytes 0x00 0x00) :=
    fetches_of_getElem (congrArg UInt16.toNat hcounter) (by decide) hhigh hlow
  have hroutine : Instruction.decode? (Opcode.ofBytes 0x00 0x00) = some (.routine 0) := by decide
  have htick : (Command.tick [⟨3, true⟩]).steps := rfl
  obtain ⟨-, outcome, ha⟩ := cycle_of_passed (fetches_heeded.2 hlast) (.inr ⟨0, hroutine⟩)
  obtain ⟨shown, hshown, -⟩ := answer_perform_of_ok htick ha
  obtain ⟨⟨-, heven⟩, opcode, hf, hsteps⟩ := hsession
  have hnext : (machine.heeded (.tick [⟨3, true⟩])).advanceOver opcode = .next := by
    simp only [hf.unique hlast, advanceOver, hroutine]
    rfl
  exact ⟨hstack, heven, hcounter, ((hsteps _ htick).2 outcome shown hshown).2.2 hcounter hnext⟩

end Machine

end Chip8
