import Chip8.Proofs.Commands
import Chip8.Proofs.Execution
import Chip8.Proofs.Keypad

/-!
# Reachable machines

The machines that a host can get by any commands, and the bounds that hold in all of them: the counter, the index and
the return addresses are addresses, and there are at most sixteen of the latter.  `Bounded` is kept by an instruction
(`Bounded.settled`), from there by a step (`Bounded.step`) and by every command (`Bounded.perform`).
-/

namespace Chip8.Machine

/-- The machines that come from a new one by commands, whether they fail or not. -/
inductive Reachable : Machine → Prop
  | create (timing : Timing) (random : ByteSupply) : Reachable (create timing random).machine
  | perform {machine : Machine} (command : Command) (h : Reachable machine) :
      Reachable (machine.perform command).machine

theorem Reachable.after {machine : Machine} (h : machine.Reachable) (commands : List Command) :
    (machine.after commands).Reachable := by
  induction commands generalizing machine with
  | nil => exact h
  | cons command rest ih => exact ih (h.perform command)

/-! ### Bounds -/

structure Bounded (machine : Machine) : Prop where
  counter_lt : machine.counter.toNat < 4096
  index_lt : machine.index.toNat < 4096
  length_stack_le : machine.stack.length ≤ stackCapacity
  stack_lt : ∀ address ∈ machine.stack, address.toNat < 4096

namespace Bounded

variable {machine : Machine}

theorem reset (machine : Machine) : machine.reset.Bounded where
  counter_lt := show (UInt16.ofNat Memory.programStart).toNat < 4096 by decide
  index_lt := show (0 : UInt16).toNat < 4096 by decide
  length_stack_le := Nat.zero_le _
  stack_lt := List.forall_mem_nil _

/-! ### Instructions -/

private theorem indexAfter_lt (h : machine.Bounded) (instruction : Instruction) :
    (machine.indexAfter instruction).toNat < 4096 := by
  cases instruction
  case setIndex nnn =>
    rw [indexAfter, Address.toNat_toWord]
    exact nnn.isLt
  case addIndex x =>
    simp only [indexAfter, UInt16.toNat_mod]
    exact Nat.mod_lt _ (by decide)
  case indexGlyph x =>
    have hd := (Fin.ofNat 16 (machine.register x).toNat).isLt
    simp only [indexAfter, Font.toNat_address, Font.location, Font.glyphSize]
    omega
  all_goals exact h.index_lt

/-- A call that does not fail finds room for its return address. -/
private theorem length_stackAfter_le (h : machine.Bounded) {instruction : Instruction} {effect : Effect}
    (he : machine.execute instruction = .ok effect) :
    (machine.stackAfter instruction).length ≤ stackCapacity := by
  have hs := h.length_stack_le
  cases instruction
  case ret =>
    rw [stackAfter, List.length_tail]
    omega
  case call nnn =>
    have hroom : ¬stackCapacity ≤ machine.stack.length := by
      intro hfull
      rw [execute_eq_error_iff.2 (.call hfull)] at he
      cases he
    rw [stackAfter, List.length_cons]
    omega
  all_goals exact hs

private theorem stackAfter_lt (h : machine.Bounded) (instruction : Instruction) :
    ∀ address ∈ machine.stackAfter instruction, address.toNat < 4096 := by
  cases instruction
  case ret => exact fun address hm => h.stack_lt address (List.mem_of_mem_tail hm)
  case call nnn =>
    intro address hm
    rw [stackAfter, List.mem_cons] at hm
    rcases hm with rfl | hm
    · exact h.counter_lt
    · exact h.stack_lt address hm
  all_goals exact h.stack_lt

theorem advanced (h : machine.Bounded) : machine.advanced.Bounded :=
  { h with counter_lt := Advance.apply_lt .skip machine.counter }

/-- Whatever an instruction does, the counter ends among the addresses. -/
theorem settled (h : machine.Bounded) {instruction : Instruction} {effect : Effect}
    (he : machine.execute instruction = .ok effect) : effect.settled.Bounded := by
  constructor
  · exact Advance.apply_lt effect.advance effect.machine.counter
  · rw [Effect.settled, index_of_execute he]
    exact h.indexAfter_lt instruction
  · rw [Effect.settled, stack_of_execute he]
    exact h.length_stackAfter_le he
  · rw [Effect.settled, stack_of_execute he]
    exact h.stackAfter_lt instruction

/-! ### Steps and commands -/

theorem cycle (h : machine.Bounded) : machine.cycle.machine.Bounded := by
  have hc := machine.cycle_cases
  generalize machine.cycle = report at hc
  cases hc with
  | outside => exact h
  | unsupported => exact h.advanced
  | failed => exact h
  | completed _ _ executes => exact h.advanced.settled executes

theorem elapse (h : machine.Bounded) : machine.elapse.Bounded := by
  unfold Machine.elapse
  split
  · exact { h with }
  · exact h

theorem applyPending (h : machine.Bounded) : machine.applyPending.Bounded := { h with }

theorem step (h : machine.Bounded) : machine.step.machine.Bounded := by
  have hc := h.applyPending.cycle
  unfold Machine.step
  dsimp only
  split
  · exact hc.elapse
  · exact hc

theorem loadReport (h : machine.Bounded) (program : List UInt8) :
    (machine.loadReport program).machine.Bounded := by
  by_cases hp : program.length ≤ Memory.programCapacity
  · rw [loadReport_of_le hp]
    have hr := reset machine
    exact ⟨hr.counter_lt, hr.index_lt, hr.length_stack_le, hr.stack_lt⟩
  · rw [loadReport_of_lt (Nat.not_le.1 hp)]
    exact h

theorem perform (h : machine.Bounded) (command : Command) : (machine.perform command).machine.Bounded := by
  cases command with
  | step =>
    rw [machine_perform_step]
    exact h.step
  | tick events =>
    rw [machine_perform_tick]
    exact step { h with }
  | setKey event =>
    rw [machine_perform_setKey]
    exact { h with }
  | load program => exact h.loadReport program
  | loadRom rom => exact h.loadReport rom.bytes
  | reset => exact reset machine
  | tickTimers | setKeys _ | enqueue _ | supply _ => exact { h with }

end Bounded

theorem Reachable.bounded {machine : Machine} (h : machine.Reachable) : machine.Bounded := by
  induction h with
  | create timing random => exact Bounded.reset { timing, random }
  | perform command _ ih => exact ih.perform command

end Chip8.Machine
