import Chip8.Proofs.Frame

/-!
# Sprites pixel by pixel

`Machine.spriteBit` says which pixels the sprite of a drawing instruction covers, by the coordinates in the registers
and the bits in memory.  The screen that such an instruction combines with has just these pixels on
(`Machine.pixel_spriteScreen`), so a step that draws turns over each of them and no other.
-/

namespace Chip8

theorem Screen.overlaps_iff {screen other : Screen} :
    screen.overlaps other ↔ ∃ column row, screen.pixel column row = true ∧ other.pixel column row = true := by
  rw [overlaps, Bool.not_eq_true', ← Bool.not_eq_true, isBlank_iff]
  simp

namespace Machine

/-! ### The pixels of a sprite -/

/-- The bytes at the index, row after row; behind the memory there are zeros. -/
def spriteBytes (machine : Machine) (n : Nat) : List UInt8 :=
  List.ofFn fun k : Fin n => machine.memory.getD (machine.index.toNat + k.val) 0

/-- The screen that shows the sprite of `n` rows at the coordinates in registers `x` and `y` and nothing else. -/
def spriteScreen (machine : Machine) (x y : Register) (n : Nat) : Screen :=
  .sprite (.ofNat 64 (machine.register x).toNat) (.ofNat 32 (machine.register y).toNat) (machine.spriteBytes n)

/-- Whether the sprite of `n` rows at the coordinates in registers `x` and `y` covers the pixel: the pixel is one of
the eight columns and `n` rows from the coordinates on, and its bit in the byte of its row is set. -/
def spriteBit (machine : Machine) (x y : Register) (n : Nat) (column : Fin 64) (row : Fin 32) : Bool :=
  let left := (machine.register x).toNat % 64
  let top := (machine.register y).toNat % 32
  decide (top ≤ row.val ∧ row.val < top + n ∧ left ≤ column.val ∧ column.val < left + 8) &&
    (machine.memory.getD (machine.index.toNat + (row.val - top)) 0).toBitVec.getLsbD (7 - (column.val - left))

theorem getD_spriteBytes (machine : Machine) (n i : Nat) :
    (machine.spriteBytes n).getD i 0 = if i < n then machine.memory.getD (machine.index.toNat + i) 0 else 0 := by
  by_cases h : i < n
  · simp [spriteBytes, h]
  · simp [spriteBytes, h]

theorem pixel_spriteScreen (machine : Machine) (x y : Register) (n : Nat) (column : Fin 64) (row : Fin 32) :
    (machine.spriteScreen x y n).pixel column row = machine.spriteBit x y n column row := by
  rw [spriteScreen, Screen.pixel_sprite, getD_spriteBytes, spriteBit]
  simp only [Fin.le_def, Fin.val_ofNat]
  generalize (machine.register x).toNat % 64 = left
  generalize (machine.register y).toNat % 32 = top
  by_cases hrow : top ≤ row.val ∧ row.val < top + n
  · have hlt : row.val - top < n := by omega
    have hcolumn : (left ≤ column.val ∧ column.val < left + 8) ↔ left ≤ column.val ∧ column.val - left < 8 := by omega
    simp only [hrow, if_pos hlt, BitVec.getMsbD_eq_getLsbD, ← and_assoc, true_and, decide_true,
      Bool.true_and, hcolumn, Bool.decide_and, Bool.and_assoc]
  · -- above the sprite and below it there are no bits
    have hnone : ¬(top ≤ row.val ∧ row.val < top + n ∧ left ≤ column.val ∧ column.val < left + 8) :=
      fun h => hrow ⟨h.1, h.2.1⟩
    rw [decide_eq_false hnone, Bool.false_and]
    by_cases htop : top ≤ row.val
    · have hge : ¬row.val - top < n := by omega
      rw [if_neg hge]
      simp
    · rw [decide_eq_false htop, Bool.false_and, Bool.false_and]

/-- What an instruction draws depends on the memory, the index and the two registers alone. -/
theorem spriteScreen_congr {machine other : Machine} {x y : Register} (hm : other.memory = machine.memory)
    (hi : other.index = machine.index) (hx : other.register x = machine.register x)
    (hy : other.register y = machine.register y) (n : Nat) :
    other.spriteScreen x y n = machine.spriteScreen x y n := by
  simp only [spriteScreen, spriteBytes, hm, hi, hx, hy]

/-! ### Steps that draw -/

/-- The machine with the sprite drawn and the collision in the register of the flags. -/
def withSprite (machine : Machine) (sprite : Screen) : Machine :=
  { machine with screen := machine.screen.xor sprite }.setRegister flagRegister
    (machine.screen.overlaps sprite).toUInt8

theorem execute_draw {machine : Machine} {x y : Register} {n : Fin 16}
    (h : machine.index.toNat + n.val ≤ 4096) :
    machine.execute (.draw x y n) =
      .ok { machine := machine.withSprite (machine.spriteScreen x y n.val), outcome := .drawn } := by
  have hbytes : (List.ofFn fun k : Fin n.val => machine.memory[machine.index.toNat + k.val]) =
      machine.spriteBytes n.val :=
    congrArg List.ofFn (funext fun k => Array.getElem_eq_getD 0)
  rw [execute, drawSprite, Memory.read_eq_ok h, hbytes]
  rfl

/-- A step that draws does nothing else, beside the keys that it takes in, the counter and the timers. -/
theorem machine_perform_draw {machine : Machine} {x y : Register} {n : Fin 16} {command : Command}
    (hs : command.steps) (hf : machine.Fetches (Instruction.draw x y n).encode)
    (hin : machine.index.toNat + n.val ≤ 4096) :
    (∃ shown, (machine.perform command).answer = .stepped .drawn shown) ∧
      ∃ counter keypad pending delay sound, (machine.perform command).machine =
        { machine.withSprite (machine.spriteScreen x y n.val) with counter, keypad, pending, delay, sound } := by
  obtain ⟨keypad, pending, hh⟩ := machine.heeded_eq command
  have hd : Instruction.decode? (Instruction.draw x y n).encode = some (.draw x y n) :=
    Instruction.decode?_encode_of_ne fun _ => Instruction.noConfusion
  have hsprite : (machine.heeded command).advanced.spriteScreen x y n.val = machine.spriteScreen x y n.val := by
    rw [hh]
    exact spriteScreen_congr rfl rfl rfl rfl n.val
  have he : (machine.heeded command).advanced.execute (.draw x y n) = _ :=
    execute_draw (by rw [hh]; exact hin)
  rw [hsprite] at he
  obtain ⟨shown, hshown, -⟩ := answer_perform_of_ok hs (cycle_heeded_of_execute hf hd he).1
  refine ⟨⟨shown, hshown⟩, ?_⟩
  rw [machine_perform_of_execute hf hd he hs, elapse_eq, hh]
  exact ⟨_, _, _, _, _, rfl⟩

/-- A step that draws a sprite inside the memory turns over the pixels that the sprite covers and no other, so nothing
of it appears left of its coordinates or above them.  The flag tells whether a pixel that was on was turned over. -/
theorem perform_draw {machine : Machine} {x y : Register} {n : Fin 16} {command : Command} (hs : command.steps)
    (hf : machine.Fetches (Opcode.ofPair 0xD x y n.val)) (hin : machine.index.toNat + n.val ≤ 4096) :
    let later := (machine.perform command).machine
    (∃ shown, (machine.perform command).answer = .stepped .drawn shown) ∧
      (∀ column row, later.screen.pixel column row =
        (machine.screen.pixel column row ^^ machine.spriteBit x y n.val column row)) ∧
      (later.register flagRegister = 1 ↔
        ∃ column row, machine.screen.pixel column row = true ∧ machine.spriteBit x y n.val column row = true) ∧
      (later.register flagRegister = 0 ↔
        ¬∃ column row, machine.screen.pixel column row = true ∧ machine.spriteBit x y n.val column row = true) ∧
      (∀ column row, column.val < (machine.register x).toNat % 64 ∨ row.val < (machine.register y).toNat % 32 →
        later.screen.pixel column row = machine.screen.pixel column row) ∧
      later.index = machine.index ∧ later.memory = machine.memory ∧ later.stack = machine.stack ∧
      ∀ k, k ≠ flagRegister → later.register k = machine.register k := by
  obtain ⟨hanswer, counter, keypad, pending, delay, sound, hm⟩ := machine_perform_draw hs hf hin
  intro later
  have hlater : later = _ := hm
  have hpixel : ∀ column row, later.screen.pixel column row =
      (machine.screen.pixel column row ^^ machine.spriteBit x y n.val column row) := by
    intro column row
    rw [hlater, ← pixel_spriteScreen]
    exact Screen.pixel_xor _ _ column row
  have hflag : later.register flagRegister = (machine.screen.overlaps (machine.spriteScreen x y n.val)).toUInt8 := by
    rw [hlater]
    exact (register_setRegister _ _ _ _).trans (if_pos rfl)
  have hoverlap := @Screen.overlaps_iff machine.screen (machine.spriteScreen x y n.val)
  simp only [pixel_spriteScreen] at hoverlap
  refine ⟨hanswer, hpixel, ?_, ?_, ?_, ?_, ?_, ?_, ?_⟩
  · rw [hflag, ← hoverlap]
    cases machine.screen.overlaps (machine.spriteScreen x y n.val) <;> decide
  · rw [hflag, ← hoverlap]
    cases machine.screen.overlaps (machine.spriteScreen x y n.val) <;> decide
  · intro column row houtside
    have hbit : machine.spriteBit x y n.val column row = false := by
      rw [spriteBit, Bool.and_eq_false_iff, decide_eq_false_iff_not]
      left
      omega
    rw [hpixel, hbit, Bool.xor_false]
  · rw [hlater]
    rfl
  · rw [hlater]
    rfl
  · rw [hlater]
    rfl
  · intro k hk
    rw [hlater]
    exact (register_setRegister _ _ _ _).trans (if_neg (Ne.symm hk))

/-- The glyph of zero, drawn twice two columns before the right edge at a coordinate in the register of the flags. -/
theorem perform_draw_edge :
    let machine := (create .perStep {}).machine.after
      [.load [0xA0, 0x50, 0x6F, 0x3E, 0xDF, 0x05, 0x6F, 0x3E, 0xDF, 0x05], .step, .step]
    let drawn := (machine.perform .step).machine
    let again := (drawn.perform .step).machine
    (drawn.screen.pixel 63 0 = true ∧ drawn.screen.pixel 0 0 = false ∧ drawn.register flagRegister = 0) ∧
      (again.perform (.tick [⟨3, true⟩])).machine.screen.pixel 63 0 = false ∧
      (again.perform (.tick [⟨3, true⟩])).machine.register flagRegister = 1 := by
  intro machine drawn again
  obtain ⟨⟨hcounter, hhigh, hlow, hin, hblank⟩, hcounter', hhigh', hlow', hin', hon⟩ :
      (machine.counter.toNat = 0x204 ∧ machine.memory[0x204] = 0xDF ∧ machine.memory[0x205] = 0x05 ∧
          machine.index.toNat + 5 ≤ 4096 ∧ machine.screen = .blank) ∧
        again.counter.toNat = 0x208 ∧ again.memory[0x208] = 0xDF ∧ again.memory[0x209] = 0x05 ∧
          again.index.toNat + 5 ≤ 4096 ∧ again.screen.pixel 63 0 = true := by
    decide +kernel
  obtain ⟨hright, hleft, hright'⟩ : machine.spriteBit 15 0 5 63 0 = true ∧ machine.spriteBit 15 0 5 0 0 = false ∧
      again.spriteBit 15 0 5 63 0 = true := by
    decide +kernel
  clear_value again machine
  have hopcode : Opcode.ofBytes 0xDF 0x05 = Opcode.ofPair 0xD 15 0 (5 : Fin 16).val := by decide
  have hf := fetches_of_getElem hcounter (by decide) hhigh hlow
  have hf' := fetches_of_getElem hcounter' (by decide) hhigh' hlow'
  rw [hopcode] at hf hf'
  have htick : (Command.tick [⟨3, true⟩]).steps := rfl
  obtain ⟨-, hpixel, -, hzero, -⟩ := perform_draw (show Command.step.steps from rfl) hf hin
  obtain ⟨-, hpixel', hone, -⟩ := perform_draw htick hf' hin'
  refine ⟨⟨?_, ?_, hzero.2 ?_⟩, ?_, hone.2 ⟨63, 0, hon, hright'⟩⟩
  · refine (hpixel 63 0).trans ?_
    rw [hblank, Screen.pixel_blank, Bool.false_xor]
    exact hright
  · refine (hpixel 0 0).trans ?_
    rw [hblank, Screen.pixel_blank, Bool.false_xor]
    exact hleft
  · rintro ⟨column, row, h, -⟩
    rw [hblank, Screen.pixel_blank] at h
    cases h
  · refine (hpixel' 63 0).trans ?_
    rw [hon]
    exact congrArg (true ^^ ·) hright'

end Machine

end Chip8
