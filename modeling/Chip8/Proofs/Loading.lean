import Chip8.Proofs.Commands
import Mathlib.Data.List.GetD

/-!
# Loading

A program that fits replaces whatever a machine did before.  `Machine.Loaded` tells all there is to see afterwards,
cell by cell; only the timing and the supply of random bytes are kept.  So machines that agree in these two cannot be
told apart once the same program was loaded into both (`load_erases_history`).
-/

namespace Chip8

namespace Memory

/-- The memory without a program: glyphs in their place, and zeros. -/
theorem getElem_initial {a : Nat} (h : a < 4096) :
    initial[a] = if 0x50 ≤ a ∧ a < 0xA0 then Font.bytes.getD (a - 0x50) 0 else 0 := by
  have hlocation : Font.location = 0x50 := rfl
  have hlength : Font.bytes.length = 80 := rfl
  rw [initial, getElem_write _ _ _ h, hlocation, Vector.getElem_replicate]
  by_cases h₁ : a < 0x50
  · rw [if_pos h₁, if_neg (by omega)]
  · rw [if_neg h₁]
    by_cases h₂ : a < 0xA0
    · rw [if_pos (by omega)]
    · rw [if_neg (by omega), List.getD_eq_default _ _ (by omega)]

end Memory

namespace Machine

/-- All there is to see of a machine into which a program was just loaded, its timing and its supply of random bytes
apart. -/
structure Loaded (machine : Machine) (program : List UInt8) : Prop where
  glyphs : ∀ a (_ : a < 4096), 0x50 ≤ a → a < 0xA0 → Font.bytes[a - 0x50]? = some machine.memory[a]
  bytes : ∀ a (_ : a < 4096), 0x200 ≤ a → a < 0x200 + program.length →
    program[a - 0x200]? = some machine.memory[a]
  zeros : ∀ a (_ : a < 4096), ¬(0x50 ≤ a ∧ a < 0xA0) → ¬(0x200 ≤ a ∧ a < 0x200 + program.length) →
    machine.memory[a] = 0
  counter_eq : machine.counter.toNat = 0x200
  index_eq : machine.index.toNat = 0
  registers_eq : ∀ x, machine.register x = 0
  delay_eq : machine.delay.value = 0
  sound_eq : machine.sound.value = 0
  stack_eq : machine.stack = []
  screen_eq : ∀ x y, machine.screen.pixel x y = false
  down_eq : ∀ key, machine.keypad.down.has key = false
  last_eq : machine.keypad.last = none
  awaiting_eq : machine.keypad.awaiting = false
  flagged_eq : machine.keypad.flagged = 0
  pending_eq : machine.pending = []

private theorem getElem?_eq_some_of_getD {bytes : List UInt8} {i : Nat} {value d : UInt8} (h : i < bytes.length)
    (hv : value = bytes.getD i d) : bytes[i]? = some value := by
  rw [hv, List.getD_eq_getElem?_getD, List.getElem?_eq_getElem h, Option.getD_some]

theorem loaded_perform_load {program : List UInt8} (h : program.length ≤ Memory.programCapacity) (machine : Machine) :
    (machine.perform (.load program)).machine.Loaded program := by
  have hcapacity : Memory.programCapacity = 3584 := rfl
  have hlength : Font.bytes.length = 80 := rfl
  rw [machine_perform_load h]
  -- a cell behind the program start has the byte of the program, or what it had without one
  have hcell : ∀ a (ha : a < 4096), (Memory.initial.write Memory.programStart program)[a] =
      if a < 0x200 then Memory.initial[a] else program.getD (a - 0x200) Memory.initial[a] :=
    fun a ha => Memory.getElem_write _ _ _ ha
  constructor
  case glyphs =>
    intro a ha h₁ h₂
    apply getElem?_eq_some_of_getD (by omega)
    rw [hcell, if_pos (by omega), Memory.getElem_initial ha, if_pos ⟨h₁, h₂⟩]
  case bytes =>
    intro a ha h₁ h₂
    apply getElem?_eq_some_of_getD (by omega)
    rw [hcell, if_neg (by omega)]
  case zeros =>
    intro a ha h₁ h₂
    have hinitial : Memory.initial[a] = 0 := by rw [Memory.getElem_initial ha, if_neg h₁]
    rw [hcell, hinitial]
    split
    · rfl
    · exact List.getD_eq_default _ _ (by omega)
  case registers_eq =>
    intro x
    simp [register, reset]
  case screen_eq => exact Screen.pixel_blank
  case down_eq =>
    intro key
    simp [reset, KeySet.has]
  all_goals rfl

theorem answer_perform_load_eq_done_iff {machine : Machine} {program : List UInt8} :
    (machine.perform (.load program)).answer = .done ↔ program.length ≤ Memory.programCapacity :=
  answer_loadReport_eq_done_iff

/-! ### Histories -/

/-- What loading leaves behind depends on the timing and the random bytes alone. -/
theorem perform_load_eq {machine other : Machine} {program : List UInt8}
    (h : program.length ≤ Memory.programCapacity) (ht : other.timing = machine.timing)
    (hr : other.random = machine.random) : other.perform (.load program) = machine.perform (.load program) := by
  have hreset : other.reset = machine.reset := by rw [reset, reset, ht, hr]
  rw [perform, perform, loadReport_of_le h, loadReport_of_le h, hreset]

/-- A program is loaded exactly if it fits.  Then the machine is as `Loaded` tells, with the timing and the supply of
random bytes that it had; and machines that had the same two give the same reports ever after. -/
theorem load_erases_history (machine : Machine) (program : List UInt8) :
    ((machine.perform (.load program)).answer = .done ↔ program.length ≤ 3584) ∧
      (program.length ≤ 3584 →
        (machine.perform (.load program)).machine.Loaded program ∧
          (machine.perform (.load program)).machine.timing = machine.timing ∧
          (machine.perform (.load program)).machine.random = machine.random) ∧
      (∀ name, (machine.perform (.loadRom ⟨name, program⟩)).machine = (machine.perform (.load program)).machine ∧
        (machine.perform (.loadRom ⟨name, program⟩)).answer = (machine.perform (.load program)).answer) ∧
      ∀ other : Machine, other.timing = machine.timing → other.random = machine.random → program.length ≤ 3584 →
        ∀ commands,
          other.performAll (.load program :: commands) = machine.performAll (.load program :: commands) ∧
            ∀ name, other.performAll (.loadRom ⟨name, program⟩ :: commands) =
              machine.performAll (.loadRom ⟨name, program⟩ :: commands) := by
  refine ⟨answer_perform_load_eq_done_iff, ?_, ?_, ?_⟩
  · intro h
    refine ⟨loaded_perform_load h machine, ?_, ?_⟩
    · simp only [machine_perform_load h, reset]
    · simp only [machine_perform_load h, reset]
  · exact fun name => ⟨rfl, rfl⟩
  · intro other ht hr h commands
    have hload : other.loadReport program = machine.loadReport program := perform_load_eq h ht hr
    constructor
    · simp only [performAll, perform, hload]
    · intro name
      simp only [performAll, perform, hload]

/-- A machine that waits with a press flagged and an event pending, a new one, and a program of the greatest length. -/
theorem load_erases_history_full :
    let start := (create .perStep {}).machine
    let other := start.after [.load [0xF1, 0x0A], .step, .setKey ⟨5, true⟩, .enqueue [⟨3, true⟩], .tickTimers]
    let program := List.replicate 3584 0xFF
    other.keypad.awaiting ∧ other.keypad.flagged = 0x20 ∧ other.pending = [⟨3, true⟩] ∧
      (other.perform (.load program)).machine.Loaded program ∧
      ∀ commands, other.performAll (.load program :: commands) = start.performAll (.load program :: commands) := by
  intro start other program
  obtain ⟨hawaiting, hflagged, hpending, ht, hr⟩ :
      other.keypad.awaiting ∧ other.keypad.flagged = 0x20 ∧ other.pending = [⟨3, true⟩] ∧
        other.timing = start.timing ∧ other.random = start.random := by
    decide +kernel
  have hl : program.length ≤ 3584 := Nat.le_of_eq List.length_replicate
  clear_value start other program
  obtain ⟨-, hloaded, -⟩ := load_erases_history other program
  obtain ⟨-, -, -, hsame⟩ := load_erases_history start program
  exact ⟨hawaiting, hflagged, hpending, (hloaded hl).1, fun commands => (hsame other ht hr hl commands).1⟩

end Machine

end Chip8
