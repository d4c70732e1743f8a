import Chip8.Proofs.ControlFlow
import Chip8.Proofs.Numerals
import Chip8.Proofs.Reachable

/-!
# Where an unsupported opcode is reported

A step over an opcode that stands for no instruction leaves two records of the place: the one of the fetch with the
counter, and a warning with an address that goes back from the counter behind the opcode.  Going back undoes the step
(`Machine.toNat_advanced_sub_two`), except at the last place that holds an opcode: there the counter has gone around to
zero, and the warning names an address outside of the memory.
-/

namespace Chip8.Machine

/-! ### The address of the warning -/

/-- Going back from behind an opcode leads to where it stands, unless the counter went around. -/
theorem toNat_advanced_sub_two {machine : Machine} (h : machine.counter.toNat + 1 < 4096) :
    (machine.advanced.counter - 2).toNat =
      if machine.counter.toNat = 0xFFE then 0xFFFE else machine.counter.toNat := by
  have hadvanced : machine.advanced.counter.toNat = (machine.counter.toNat + 2) % 4096 :=
    Advance.toNat_apply_skip machine.counter
  have htwo : (2 : UInt16).toNat = 2 := rfl
  rw [UInt16.toNat_sub, hadvanced, htwo]
  split <;> omega

theorem advanced_sub_two_eq_iff {machine : Machine} (h : machine.counter.toNat + 1 < 4096) :
    machine.advanced.counter - 2 = machine.counter ↔ machine.counter ≠ 0xFFE := by
  have hlast : machine.counter = 0xFFE ↔ machine.counter.toNat = 0xFFE := UInt16.toNat_inj.symm
  rw [← UInt16.toNat_inj, toNat_advanced_sub_two h, Ne, hlast]
  split
  · omega
  · simp [*]

/-! ### The records of the step -/

theorem outcomeAfter_ne_unsupported (machine : Machine) (instruction : Instruction) (opcode : Opcode) :
    machine.outcomeAfter instruction ≠ .unsupported opcode := by
  cases instruction
  case awaitKey x =>
    rw [outcomeAfter]
    split <;> exact Outcome.noConfusion
  all_goals exact Outcome.noConfusion

/-- Only an opcode without an instruction is reported as one. -/
theorem cycle_of_unsupported {machine : Machine} {opcode : Opcode}
    (h : machine.cycle.answer = .ok (.unsupported opcode)) :
    machine.Fetches opcode ∧ Instruction.decode? opcode = none ∧
      machine.cycle.log = [.fetched opcode machine.counter, .unsupported opcode (machine.advanced.counter - 2)] := by
  have hc := machine.cycle_cases
  generalize machine.cycle = report at hc h ⊢
  cases hc with
  | outside | failed => cases h
  | unsupported fetches decodes =>
    cases h
    exact ⟨fetches, decodes, rfl⟩
  | completed fetches decodes executes =>
    exact absurd ((outcome_of_execute executes).symm.trans (Except.ok.inj h)) (outcomeAfter_ne_unsupported _ _ opcode)

theorem cycle_of_decode?_eq_none {machine : Machine} {opcode : Opcode} (hf : machine.Fetches opcode)
    (hd : Instruction.decode? opcode = none) :
    machine.cycle =
      { machine := machine.advanced
        answer := .ok (.unsupported opcode)
        log := [.fetched opcode machine.counter, .unsupported opcode (machine.advanced.counter - 2)] } := by
  rw [cycle_of_fetches hf, dispatch_of_decode?_eq_none hd]

theorem answer_perform_of_unsupported {machine : Machine} {command : Command} {opcode : Opcode} (hs : command.steps)
    (hf : machine.Fetches opcode) (hd : Instruction.decode? opcode = none) :
    (machine.perform command).answer = .stepped (.unsupported opcode) none := by
  have hfetch : (machine.heeded command).Fetches opcode := fetches_heeded.2 hf
  have hcycle := cycle_of_decode?_eq_none hfetch hd
  exact answer_perform_of_ne_drawn hs (congrArg Report.answer hcycle) Outcome.noConfusion

/-! ### The diagnosis of a step -/

/-- A step over an unsupported opcode leaves the record of its fetch, with the address where it stands, and right
behind it the warning.  The warning names the same address, in the same text, unless this is the last place in the
memory that holds an opcode; there it names one outside of the memory. -/
theorem warned_address {machine : Machine} {command : Command} {opcode : Opcode} {shown : Option Screen}
    (hs : command.steps) (h : (machine.perform command).answer = .stepped (.unsupported opcode) shown) :
    ∃ address : UInt16,
      (machine.perform command).log =
        dropped (machine.heard command) ++ [.fetched opcode machine.counter, .unsupported opcode address] ∧
      machine.Fetches opcode ∧ machine.counter.toNat ≤ 0xFFE ∧
      (address = machine.counter ↔ machine.counter ≠ 0xFFE) ∧
      (Hexadecimal.text 4 address.toNat = Hexadecimal.text 4 machine.counter.toNat ↔ machine.counter ≠ 0xFFE) ∧
      (machine.counter = 0xFFE → address = 0xFFFE) := by
  obtain ⟨hfetch, -, hlog⟩ := cycle_of_unsupported (answer_cycle_of_stepped hs h)
  have hcounter := machine.counter_heeded command
  have hadvanced : (machine.heeded command).advanced.counter = machine.advanced.counter :=
    congrArg Advance.skip.apply hcounter
  rw [hcounter, hadvanced] at hlog
  obtain ⟨hlt, hopcode⟩ := fetches_heeded.1 hfetch
  have hsame := advanced_sub_two_eq_iff hlt
  refine ⟨machine.advanced.counter - 2, ?_, ⟨hlt, hopcode⟩, by omega, hsame, ?_, ?_⟩
  · rw [log_perform_of_steps hs, hlog]
  · rw [Hexadecimal.text_inj, UInt16.toNat_inj, hsame]
  · intro hlast
    apply UInt16.toNat_inj.1
    rw [toNat_advanced_sub_two hlt, hlast]
    rfl

/-- A program stores an opcode without an instruction in the last two cells and jumps there. -/
private theorem fetches_last :
    let last := (create .perStep {}).machine.after
      [.load [0x60, 0xE0, 0xAF, 0xFE, 0xF0, 0x55, 0x1F, 0xFE], .step, .step, .step, .step]
    last.Fetches 0xE000 ∧ last.counter = 0xFFE := by
  intro last
  obtain ⟨hcounter, hhigh, hlow⟩ :
      last.counter.toNat = 0xFFE ∧ last.memory[0xFFE] = 0xE0 ∧ last.memory[0xFFF] = 0x00 := by
    decide +kernel
  clear_value last
  have hfetch := fetches_of_getElem hcounter (by decide) hhigh hlow
  exact ⟨hfetch, UInt16.toNat_inj.1 hcounter⟩

/-- The opcode at the last place that holds one, and the same opcode at the program start, behind a key event that is
dropped. -/
theorem warned_address_last :
    let last := (create .perStep {}).machine.after
      [.load [0x60, 0xE0, 0xAF, 0xFE, 0xF0, 0x55, 0x1F, 0xFE], .step, .step, .step, .step]
    let first := ((create .perStep {}).machine.perform (.load [0xE0, 0x00])).machine
    (last.perform .step).log = [.fetched 0xE000 0xFFE, .unsupported 0xE000 0xFFFE] ∧
      (first.perform (.tick [⟨16, true⟩])).log =
        [.keyDropped ⟨16, true⟩, .fetched 0xE000 0x200, .unsupported 0xE000 0x200] := by
  intro last first
  have hd : Instruction.decode? 0xE000 = none := by decide
  obtain ⟨hlast, hend⟩ : last.Fetches 0xE000 ∧ last.counter = 0xFFE := fetches_last
  have hfirst : first.Fetches 0xE000 := fetches_load (by decide) _
  obtain ⟨hstart, hquiet, hdrop⟩ : first.counter = 0x200 ∧ dropped (last.heard .step) = [] ∧
      dropped (first.heard (.tick [⟨16, true⟩])) = [.keyDropped ⟨16, true⟩] := by
    decide +kernel
  clear_value last first
  constructor
  · have hs : Command.step.steps := rfl
    obtain ⟨address, hlog, -, -, -, -, hwrapped⟩ := warned_address hs (answer_perform_of_unsupported hs hlast hd)
    rw [hlog, hquiet, hend, hwrapped hend, List.nil_append]
  · have hs : (Command.tick [⟨16, true⟩]).steps := rfl
    obtain ⟨address, hlog, -, -, hsame, -, -⟩ := warned_address hs (answer_perform_of_unsupported hs hfirst hd)
    have haddress : address = 0x200 := (hsame.2 (by rw [hstart]; decide)).trans hstart
    rw [hlog, hdrop, hstart, haddress]
    rfl

/-- The warning does not always name the address that the opcode was fetched from. -/
theorem not_forall_warned_address :
    ¬∀ (machine : Machine) (opcode : Opcode) (address : UInt16), machine.Reachable →
      machine.step.answer = .ok (.unsupported opcode) → .unsupported opcode address ∈ machine.step.log →
        address = machine.counter := by
  intro h
  have hreach := (Reachable.create .perStep {}).after
    [.load [0x60, 0xE0, 0xAF, 0xFE, 0xF0, 0x55, 0x1F, 0xFE], .step, .step, .step, .step]
  -- nothing else matters of the machine, and the kernel must not run the program
  obtain ⟨last, hreach, hlast, hend⟩ :
      ∃ last : Machine, last.Reachable ∧ last.Fetches 0xE000 ∧ last.counter = 0xFFE :=
    ⟨_, hreach, fetches_last⟩
  have hfetch : last.applyPending.Fetches 0xE000 := hlast
  have hcycle := cycle_of_decode?_eq_none hfetch (by decide)
  have hwrapped : (last.advanced.counter - 2 : UInt16) = 0xFFFE := by
    change Advance.skip.apply last.counter - 2 = 0xFFFE
    rw [hend]
    decide
  have hlog : .unsupported 0xE000 0xFFFE ∈ last.step.log := by
    rw [step, hcycle, ← hwrapped]
    exact List.mem_append_right _ (List.mem_cons_of_mem _ List.mem_cons_self)
  have haddress := h last 0xE000 0xFFFE hreach (congrArg Report.answer hcycle) hlog
  rw [hend] at haddress
  exact absurd haddress (by decide)

end Chip8.Machine
