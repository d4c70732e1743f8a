import Chip8.Proofs.Answers
import Chip8.Proofs.ControlFlow
import Chip8.Proofs.Loading

/-!
# Where opcodes lead

`Machine.Branches` lists the opcodes that lead elsewhere than to the next one, each with the states in which it does and
with the address that it leads to.  A step that completes goes there (`Machine.toNat_counter_of_branches`), and to the
next opcode from all other states (`Machine.toNat_counter_of_not_branches`).  So in a session that never branches each
step moves the counter on by the length of an opcode, around the end of the memory (`Machine.Straight.toNat_counter`).
-/

namespace Chip8.Machine

/-- The opcodes that lead elsewhere than to the next one, for a machine without pending key events. -/
inductive Branches (machine : Machine) : Opcode → Nat → Prop
  | jump (nnn : Address) : Branches machine (Opcode.ofAddress 0x1 nnn) nnn.val
  | call (nnn : Address) : Branches machine (Opcode.ofAddress 0x2 nnn) nnn.val
  | jumpOffset (nnn : Address) :
      Branches machine (Opcode.ofAddress 0xB nnn) ((nnn.val + (machine.register 0).toNat) % 4096)
  | ret {address : UInt16} {rest : List UInt16} (h : machine.stack = address :: rest) :
      Branches machine 0x00EE address.toNat
  | waiting {x : Register} (h : machine.cycle.answer = .ok .waiting) :
      Branches machine (Opcode.ofByte 0xF x 0x0A) machine.counter.toNat
  | skipEqual {x : Register} {nn : UInt8} (h : machine.register x = nn) :
      Branches machine (Opcode.ofByte 0x3 x nn.toNat) ((machine.counter.toNat + 4) % 4096)
  | skipNotEqual {x : Register} {nn : UInt8} (h : machine.register x ≠ nn) :
      Branches machine (Opcode.ofByte 0x4 x nn.toNat) ((machine.counter.toNat + 4) % 4096)
  | skipSame {x y : Register} (h : machine.register x = machine.register y) :
      Branches machine (Opcode.ofPair 0x5 x y 0) ((machine.counter.toNat + 4) % 4096)
  | skipNotSame {x y : Register} (h : machine.register x ≠ machine.register y) :
      Branches machine (Opcode.ofPair 0x9 x y 0) ((machine.counter.toNat + 4) % 4096)
  | skipKeyDown {x : Register} (h : machine.keypad.down.has (.ofNat 16 (machine.register x).toNat)) :
      Branches machine (Opcode.ofByte 0xE x 0x9E) ((machine.counter.toNat + 4) % 4096)
  | skipKeyUp {x : Register} (h : machine.keypad.down.has (.ofNat 16 (machine.register x).toNat) = false) :
      Branches machine (Opcode.ofByte 0xE x 0xA1) ((machine.counter.toNat + 4) % 4096)

/-! ### Movements and addresses -/

/-- The movement leads from the counter to the address. -/
def LeadsTo (machine : Machine) (target : Nat) : Advance → Prop
  | .next => False
  | .skip => target = (machine.counter.toNat + 4) % 4096
  | .hold => target = machine.counter.toNat
  | .jump address => target = address.toNat % 4096

theorem leadsTo_skipIf {condition : Bool} (h : condition) (machine : Machine) :
    machine.LeadsTo ((machine.counter.toNat + 4) % 4096) (.skipIf condition) := by
  rw [Advance.skipIf, if_pos h]
  rfl

theorem leadsTo_toWord (machine : Machine) (nnn : Address) : machine.LeadsTo nnn.val (.jump nnn.toWord) := by
  rw [LeadsTo, Address.toNat_toWord, Nat.mod_eq_of_lt nnn.isLt]

theorem toNat_apply_of_leadsTo {machine : Machine} {advance : Advance} {target : Nat} (hb : machine.Bounded)
    (h : machine.LeadsTo target advance) : (advance.apply machine.advanced.counter).toNat = target := by
  cases advance with
  | next => exact h.elim
  | skip =>
    obtain rfl : target = (machine.counter.toNat + 4) % 4096 := h
    rw [Advance.toNat_apply_skip, advanced, Advance.toNat_apply_skip]
    omega
  | hold =>
    obtain rfl : target = machine.counter.toNat := h
    rw [advanced, Advance.apply_hold_apply_skip, UInt16.toNat_mod]
    exact Nat.mod_eq_of_lt hb.counter_lt
  | jump address =>
    obtain rfl : target = address.toNat % 4096 := h
    exact UInt16.toNat_mod address 4096

theorem advanceOver_of_decode? {opcode : Opcode} {instruction : Instruction}
    (h : Instruction.decode? opcode = some instruction) (machine : Machine) :
    machine.advanceOver opcode = machine.advanceAfter instruction := by
  rw [advanceOver, h]

/-- A step that asks for a press waits if and only if there is none to take. -/
theorem answer_cycle_awaitKey {machine : Machine} {x : Register}
    (hf : machine.Fetches (Instruction.awaitKey x).encode) :
    machine.cycle.answer = .ok .waiting ↔ machine.keypad.takePress.1 = none := by
  have hd : Instruction.decode? (Instruction.awaitKey x).encode = some (.awaitKey x) :=
    Instruction.decode?_encode_of_ne fun nnn => Instruction.noConfusion
  have hn : ∀ fault, ¬Fails machine (.awaitKey x) fault := by
    intro fault hfail
    cases hfail
  rw [answer_cycle_of_not_fails (.awaitKey x) hd hn hf, outcomeAfter]
  cases machine.keypad.takePress.1 <;> simp

/-- What branches is an instruction that asks for a movement to the address. -/
theorem exists_leadsTo_of_branches {machine : Machine} {opcode : Opcode} {target : Nat} (hb : machine.Bounded)
    (hf : machine.Fetches opcode) (h : machine.Branches opcode target) :
    ∃ instruction : Instruction, opcode = instruction.encode ∧ (∀ nnn, instruction ≠ .routine nnn) ∧
      machine.LeadsTo target (machine.advanceAfter instruction) := by
  cases h with
  | jump nnn => exact ⟨.jump nnn, rfl, fun _ => Instruction.noConfusion, machine.leadsTo_toWord nnn⟩
  | call nnn => exact ⟨.call nnn, rfl, fun _ => Instruction.noConfusion, machine.leadsTo_toWord nnn⟩
  | jumpOffset nnn =>
    refine ⟨.jumpOffset nnn, rfl, fun _ => Instruction.noConfusion, ?_⟩
    have hoffset := (machine.register 0).toNat_lt
    have hnnn := nnn.isLt
    rw [advanceAfter, LeadsTo, UInt16.toNat_add, Address.toNat_toWord, UInt8.toNat_toUInt16]
    omega
  | @ret address rest hs =>
    refine ⟨.ret, rfl, fun _ => Instruction.noConfusion, ?_⟩
    have hlt : address.toNat < 4096 := hb.stack_lt address (by rw [hs]; exact List.mem_cons_self)
    rw [advanceAfter, hs, List.headD_cons, LeadsTo, Nat.mod_eq_of_lt hlt]
  | @waiting x hw =>
    refine ⟨.awaitKey x, rfl, fun _ => Instruction.noConfusion, ?_⟩
    rw [advanceAfter, (answer_cycle_awaitKey hf).1 hw]
    rfl
  | @skipEqual x nn h =>
    exact ⟨.skipEqual x nn, rfl, fun _ => Instruction.noConfusion, leadsTo_skipIf (beq_iff_eq.2 h) machine⟩
  | @skipNotEqual x nn h =>
    exact ⟨.skipNotEqual x nn, rfl, fun _ => Instruction.noConfusion, leadsTo_skipIf (bne_iff_ne.2 h) machine⟩
  | @skipSame x y h =>
    exact ⟨.skipSame x y, rfl, fun _ => Instruction.noConfusion, leadsTo_skipIf (beq_iff_eq.2 h) machine⟩
  | @skipNotSame x y h =>
    exact ⟨.skipNotSame x y, rfl, fun _ => Instruction.noConfusion, leadsTo_skipIf (bne_iff_ne.2 h) machine⟩
  | @skipKeyDown x h => exact ⟨.skipKeyDown x, rfl, fun _ => Instruction.noConfusion, leadsTo_skipIf h machine⟩
  | @skipKeyUp x h =>
    have hup : (!machine.keypad.isPressed (machine.register x).toNat) = true := by
      rw [Keypad.isPressed, h, Bool.not_false]
    exact ⟨.skipKeyUp x, rfl, fun _ => Instruction.noConfusion, leadsTo_skipIf hup machine⟩

theorem leadsTo_of_branches {machine : Machine} {opcode : Opcode} {target : Nat} (hb : machine.Bounded)
    (hf : machine.Fetches opcode) (h : machine.Branches opcode target) :
    machine.LeadsTo target (machine.advanceOver opcode) := by
  obtain ⟨instruction, rfl, hne, hleads⟩ := exists_leadsTo_of_branches hb hf h
  rw [advanceOver_of_decode? (Instruction.decode?_encode_of_ne hne)]
  exact hleads

/-- The condition of a skip that does not branch does not hold. -/
theorem skipIf_eq_next {condition : Bool} (h : ¬condition) : Advance.skipIf condition = .next :=
  if_neg h

/-- An instruction that completes and does not branch asks for no movement but to the next opcode. -/
theorem advanceAfter_of_not_branches {machine : Machine} {instruction : Instruction} {outcome : Outcome}
    (hf : machine.Fetches instruction.encode) (ha : machine.cycle.answer = .ok outcome)
    (h : ∀ target, ¬machine.Branches instruction.encode target) : machine.advanceAfter instruction = .next := by
  cases instruction
  case jump nnn => exact absurd (.jump nnn) (h _)
  case call nnn => exact absurd (.call nnn) (h _)
  case jumpOffset nnn => exact absurd (.jumpOffset nnn) (h _)
  case ret =>
    cases hs : machine.stack with
    | nil =>
      rw [answer_cycle_of_fails (.ret hs) hf] at ha
      cases ha
    | cons address rest => exact absurd (.ret hs) (h _)
  case awaitKey x =>
    cases hp : machine.keypad.takePress.1 with
    | none => exact absurd (.waiting ((answer_cycle_awaitKey hf).2 hp)) (h _)
    | some key =>
      rw [advanceAfter, hp]
      rfl
  case skipEqual x nn => exact skipIf_eq_next fun hc => h _ (.skipEqual (beq_iff_eq.1 hc))
  case skipNotEqual x nn => exact skipIf_eq_next fun hc => h _ (.skipNotEqual (bne_iff_ne.1 hc))
  case skipSame x y => exact skipIf_eq_next fun hc => h _ (.skipSame (beq_iff_eq.1 hc))
  case skipNotSame x y => exact skipIf_eq_next fun hc => h _ (.skipNotSame (bne_iff_ne.1 hc))
  case skipKeyDown x => exact skipIf_eq_next fun hc => h _ (.skipKeyDown hc)
  case skipKeyUp x => exact skipIf_eq_next fun hc => h _ (.skipKeyUp (Bool.not_inj hc))
  all_goals rfl

theorem advanceOver_of_not_branches {machine : Machine} {opcode : Opcode} {outcome : Outcome}
    (hf : machine.Fetches opcode) (ha : machine.cycle.answer = .ok outcome)
    (h : ∀ target, ¬machine.Branches opcode target) : machine.advanceOver opcode = .next := by
  cases hd : Instruction.decode? opcode with
  | none => rw [advanceOver, hd]
  | some instruction =>
    rw [advanceOver_of_decode? hd]
    obtain rfl := Instruction.encode_of_decode? hd
    exact advanceAfter_of_not_branches hf ha h

/-! ### Steps -/

section Steps

variable {machine : Machine} {command : Command} {opcode : Opcode} {outcome : Outcome} {shown : Option Screen}
  (hs : command.steps) (hf : machine.Fetches opcode)
  (ha : (machine.perform command).answer = .stepped outcome shown)

include hs hf ha

theorem toNat_counter_of_branches (hb : machine.Bounded) {target : Nat}
    (h : (machine.heeded command).Branches opcode target) :
    (machine.perform command).machine.counter.toNat = target := by
  have hcounter := counter_perform hs hf ha
  obtain ⟨keypad, pending, hh⟩ := machine.heeded_eq command
  rw [hh] at h hcounter
  have hbounded : { machine with keypad, pending }.Bounded := { hb with }
  have hfetch : { machine with keypad, pending }.Fetches opcode := hf
  have hmove := toNat_apply_of_leadsTo hbounded (leadsTo_of_branches hbounded hfetch h)
  rw [hcounter]
  exact hmove

theorem toNat_counter_of_not_branches (h : ∀ target, ¬(machine.heeded command).Branches opcode target) :
    (machine.perform command).machine.counter.toNat = (machine.counter.toNat + 2) % 4096 := by
  have hnext := advanceOver_of_not_branches (fetches_heeded.2 hf) (answer_cycle_of_stepped hs ha) h
  rw [counter_perform hs hf ha, hnext, advanced, Advance.apply_next_apply_skip, Advance.toNat_apply_skip]

end Steps

/-- A step that completes has found an opcode. -/
theorem exists_fetches_of_stepped {machine : Machine} {command : Command} {outcome : Outcome} {shown : Option Screen}
    (hs : command.steps) (ha : (machine.perform command).answer = .stepped outcome shown) :
    ∃ opcode, machine.Fetches opcode := by
  have hanswer := answer_cycle_of_stepped hs ha
  by_cases hlt : machine.counter.toNat + 1 < 4096
  · exact exists_fetches hlt
  · obtain ⟨keypad, pending, hh⟩ := machine.heeded_eq command
    have hle : 4096 ≤ { machine with keypad, pending }.counter.toNat + 1 := Nat.not_lt.1 hlt
    rw [hh, cycle_of_le hle] at hanswer
    cases hanswer

/-! ### Sessions -/

/-- Each step of the session completes and goes on to the next opcode. -/
def Straight (machine : Machine) (commands : List Command) : Prop :=
  ∀ earlier command later, commands = earlier ++ command :: later → command.steps →
    let before := machine.after earlier
    (∃ outcome shown, (before.perform command).answer = .stepped outcome shown) ∧
      ∀ opcode target, before.Fetches opcode → ¬(before.heeded command).Branches opcode target

theorem straight_nil (machine : Machine) : machine.Straight [] := by
  intro earlier command later h
  simp at h

theorem straight_cons {machine : Machine} {command : Command} {rest : List Command} :
    machine.Straight (command :: rest) ↔
      (command.steps → (∃ outcome shown, (machine.perform command).answer = .stepped outcome shown) ∧
        ∀ opcode target, machine.Fetches opcode → ¬(machine.heeded command).Branches opcode target) ∧
      (machine.perform command).machine.Straight rest := by
  constructor
  · intro h
    refine ⟨h [] command rest rfl, ?_⟩
    rintro earlier other later rfl
    exact h (command :: earlier) other later rfl
  · rintro ⟨hfirst, hrest⟩ earlier other later h
    cases earlier with
    | nil =>
      cases h
      exact hfirst
    | cons first earlier =>
      cases h
      exact hrest earlier other later rfl

/-- An opcode without an instruction goes straight on, and so does a routine. -/
theorem Straight.cons_of_passed {machine : Machine} {command : Command} {rest : List Command} {opcode : Opcode}
    (h : (machine.perform command).machine.Straight rest) (hb : machine.Bounded) (hf : machine.Fetches opcode)
    (hd : Instruction.decode? opcode = none ∨ ∃ nnn, Instruction.decode? opcode = some (.routine nnn)) :
    machine.Straight (command :: rest) := by
  have hfetch : (machine.heeded command).Fetches opcode := fetches_heeded.2 hf
  refine straight_cons.2 ⟨fun hs => ⟨?_, ?_⟩, h⟩
  · obtain ⟨-, outcome, ha⟩ := cycle_of_passed hfetch hd
    obtain ⟨shown, hshown, -⟩ := answer_perform_of_ok hs ha
    exact ⟨outcome, shown, hshown⟩
  · intro other target hother hbranch
    obtain rfl := hother.unique hf
    have hnext : (machine.heeded command).advanceOver other = .next := by
      rcases hd with hd | ⟨nnn, hd⟩ <;> simp only [advanceOver, hd, advanceAfter]
    obtain ⟨keypad, pending, hh⟩ := machine.heeded_eq command
    have hbounded : (machine.heeded command).Bounded := by
      rw [hh]
      exact { hb with }
    have hleads := leadsTo_of_branches hbounded hfetch hbranch
    rw [hnext] at hleads
    exact hleads

/-- What a host does between the steps leaves the opcode at the counter. -/
theorem counter_memory_perform_of_idle (machine : Machine) {command : Command} (hs : ¬command.steps)
    (hr : ¬command.restarts) :
    (machine.perform command).machine.counter = machine.counter ∧
      (machine.perform command).machine.memory = machine.memory := by
  obtain ⟨keypad, pending, delay, sound, random, hm⟩ := machine_perform_of_idle hs (mt restarts_iff.1 hr)
  rw [hm]
  exact ⟨rfl, rfl⟩

/-- The counter moves on with the steps alone, by the length of an opcode each. -/
theorem Straight.toNat_counter {machine : Machine} {commands : List Command} (h : machine.Straight commands)
    (hb : machine.Bounded) (hr : ∀ command ∈ commands, ¬command.restarts) :
    (machine.after commands).counter.toNat =
      (machine.counter.toNat + 2 * commands.countP Command.steps) % 4096 := by
  induction commands generalizing machine with
  | nil => exact (Nat.mod_eq_of_lt hb.counter_lt).symm
  | cons command rest ih =>
    obtain ⟨hfirst, hrest⟩ := straight_cons.1 h
    obtain ⟨hrc, hrr⟩ := List.forall_mem_cons.1 hr
    have hafter := ih hrest (hb.perform command) hrr
    rw [after, List.foldl_cons]
    refine hafter.trans ?_
    by_cases hs : command.steps
    · obtain ⟨⟨outcome, shown, ha⟩, hbranch⟩ := hfirst hs
      obtain ⟨opcode, hf⟩ := exists_fetches_of_stepped hs ha
      rw [toNat_counter_of_not_branches hs hf ha fun target => hbranch opcode target hf,
        List.countP_cons_of_pos hs]
      omega
    · rw [(machine.counter_memory_perform_of_idle hs hrc).1, List.countP_cons_of_neg hs]

/-- A step or a tick that completes goes to the address to which its opcode branches, in the state in which the machine
executes it, and otherwise behind the opcode.  So after a session of commands without a reset, whose steps all complete
and do not branch, the counter has moved on by two for each step, around the end of the memory. -/
theorem control_flow {machine : Machine} (h : machine.Reachable) :
    (∀ command outcome shown, Command.steps command → (machine.perform command).answer = .stepped outcome shown →
      ∃ opcode, machine.Fetches opcode ∧
        let executing := machine.heeded command
        let after := (machine.perform command).machine
        (∀ target, executing.Branches opcode target → after.counter.toNat = target) ∧
          ((∀ target, ¬executing.Branches opcode target) →
            after.counter.toNat = (machine.counter.toNat + 2) % 4096)) ∧
    ∀ commands, (∀ command ∈ commands, ¬Command.restarts command) → machine.Straight commands →
      (machine.after commands).counter.toNat =
        (machine.counter.toNat + 2 * commands.countP Command.steps) % 4096 := by
  constructor
  · intro command outcome shown hs ha
    obtain ⟨opcode, hf⟩ := exists_fetches_of_stepped hs ha
    refine ⟨opcode, hf, ?_⟩
    intro executing after
    exact ⟨fun target => toNat_counter_of_branches hs hf ha h.bounded, toNat_counter_of_not_branches hs hf ha⟩
  · intro commands hr hstraight
    exact hstraight.toNat_counter h.bounded hr

/-- A jump to the last opcode of the memory, and a step and a tick that go on from there and with its beginning. -/
theorem control_flow_wrap :
    let machine := ((create .perStep {}).machine.perform (.load [0x1F, 0xFE])).machine
    let jumped := (machine.perform .step).machine
    machine.Reachable ∧ jumped.counter.toNat = 0xFFE ∧
      (jumped.after [.step, .setKey ⟨3, true⟩, .tick []]).counter.toNat = 0x002 := by
  intro machine jumped
  have hp : ([0x1F, 0xFE] : List UInt8).length ≤ Memory.programCapacity := by decide
  have hreachable : machine.Reachable := .perform _ (.create .perStep {})
  have hf : machine.Fetches (Instruction.jump 0xFFE).encode := fetches_load hp (create .perStep {}).machine
  have hloaded : machine.Loaded [0x1F, 0xFE] := loaded_perform_load hp (create .perStep {}).machine
  clear_value machine
  have hstep : Command.step.steps := rfl
  -- the jump completes
  have hd : Instruction.decode? (Instruction.jump 0xFFE).encode = some (.jump 0xFFE) := by decide
  have hcycle : (machine.heeded .step).cycle = _ := cycle_of_fetches (fetches_heeded.2 hf)
  rw [dispatch_of_execute_eq_ok hd rfl] at hcycle
  have hcompleted : (machine.heeded .step).cycle.answer = .ok .plain := by rw [hcycle]
  obtain ⟨shown, ha, -⟩ := answer_perform_of_ok hstep hcompleted
  obtain ⟨opcode, hopcode, hbranch, -⟩ := (control_flow hreachable).1 .step .plain shown hstep ha
  obtain rfl := hopcode.unique hf
  have hcounter : jumped.counter.toNat = 0xFFE := hbranch 0xFFE (.jump 0xFFE)
  have hmemory : jumped.memory = machine.memory := by
    obtain ⟨delay, sound, hm⟩ := machine_perform_eq_cycle hstep machine
    change (machine.perform .step).machine.memory = machine.memory
    rw [hm, hcycle]
    rfl
  have hjumped : jumped.Reachable := hreachable.perform .step
  have hbounded := hjumped.bounded
  clear_value jumped
  -- the memory ends and begins with zeros, and they stand for a routine
  have hroutine : Instruction.decode? (Opcode.ofBytes 0 0) = none ∨
      ∃ nnn, Instruction.decode? (Opcode.ofBytes 0 0) = some (.routine nnn) := .inr ⟨0, by decide⟩
  have hlast : jumped.Fetches (Opcode.ofBytes 0 0) := by
    refine fetches_of_getElem hcounter (by decide) ?_ ?_ <;> simp only [hmemory]
    · exact hloaded.zeros 0xFFE (by decide) (by decide) (by decide)
    · exact hloaded.zeros 0xFFF (by decide) (by decide) (by decide)
  obtain ⟨hnext, hsame⟩ :
      (jumped.perform .step).machine.counter.toNat = 0 ∧ (jumped.perform .step).machine.memory = machine.memory := by
    have hpassed := machine_perform_of_passed hstep hlast (.inr ⟨0, by decide, by decide, rfl⟩)
    rw [hpassed, counter_elapse, elapse_eq, hcounter, ← hmemory]
    refine ⟨rfl, ?_⟩
    cases jumped
    rfl
  have hfirst : (jumped.perform .step).machine.Fetches (Opcode.ofBytes 0 0) := by
    refine fetches_of_getElem hnext (by decide) ?_ ?_ <;> simp only [hsame]
    · exact hloaded.zeros 0x000 (by decide) (by decide) (by decide)
    · exact hloaded.zeros 0x001 (by decide) (by decide) (by decide)
  have hkey : ¬(Command.setKey ⟨3, true⟩).steps := Bool.false_ne_true
  have hsecond : ((jumped.perform .step).machine.perform (.setKey ⟨3, true⟩)).machine.Fetches (Opcode.ofBytes 0 0) := by
    obtain ⟨hkept, hkept'⟩ := (jumped.perform .step).machine.counter_memory_perform_of_idle hkey Bool.false_ne_true
    exact hfirst.of_eq hkept hkept'
  have hstraight : jumped.Straight [.step, .setKey ⟨3, true⟩, .tick []] := by
    refine Straight.cons_of_passed ?_ hbounded hlast hroutine
    refine straight_cons.2 ⟨fun hs => absurd hs hkey, ?_⟩
    exact (straight_nil _).cons_of_passed ((hbounded.perform _).perform _) hsecond hroutine
  have hafter := (control_flow hjumped).2 _ (by simp [Command.restarts]) hstraight
  rw [hcounter] at hafter
  exact ⟨hreachable, hcounter, hafter⟩

end Chip8.Machine
