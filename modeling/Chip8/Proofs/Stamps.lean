import Chip8.Proofs.Answers
import Chip8.Proofs.Drawing
import Chip8.Proofs.Sprites

/-!
# Drawing twice, and in any order

A drawing instruction combines the screen with a sprite by exclusive or, so sprites may be drawn in any order, and those
that are drawn again disappear (`drawn_iff`, `screenAfter_perm`, `screenAfter_screenAfter`).  The loops of
`Guarded.drawRows` leave the same screens.

The flags of an instruction that runs twice differ: the first tells of the pixels of the sprite that were on, the second
of those that were off (`Machine.flag_perform_draw`, `Machine.perform_draw_again`).
-/

namespace Chip8

namespace Screen

theorem xor_right_comm (screen first second : Screen) :
    (screen.xor first).xor second = (screen.xor second).xor first := by
  apply ext_pixel
  intro x y
  simp only [pixel_xor, Bool.xor_right_comm]

theorem xor_xor_cancel (screen other : Screen) : (screen.xor other).xor other = screen := by
  apply ext_pixel
  intro x y
  simp only [pixel_xor, Bool.xor_assoc, Bool.xor_self, Bool.xor_false]

/-- What was drawn collides when it is drawn again where the screen was off. -/
theorem overlaps_xor_iff {screen other : Screen} :
    (screen.xor other).overlaps other ↔
      ∃ column row, screen.pixel column row = false ∧ other.pixel column row = true := by
  rw [overlaps_iff]
  apply exists_congr
  intro column
  apply exists_congr
  intro row
  rw [pixel_xor]
  cases screen.pixel column row <;> simp

end Screen

/-! ### Lists of sprites -/

/-- A sprite with the coordinates at which it is drawn. -/
structure Stamp where
  left : UInt8
  top : UInt8
  bytes : List UInt8
  length_le : bytes.length ≤ 15

/-- The screen that shows the stamp and nothing else. -/
def Stamp.screen (stamp : Stamp) : Screen :=
  .sprite (.ofNat 64 stamp.left.toNat) (.ofNat 32 stamp.top.toNat) stamp.bytes

/-- The stamp is drawn on a screen: an instruction that finds its coordinates in registers and its bytes at the index
turns that screen into the other one. -/
inductive Stamp.Draws (stamp : Stamp) : Screen → Screen → Prop
  | execute {machine : Machine} {x y : Register} {n : Fin 16} {effect : Effect}
      (left : machine.register x = stamp.left) (top : machine.register y = stamp.top)
      (bytes : machine.memory.read machine.index.toNat n.val = .ok stamp.bytes)
      (executes : machine.execute (.draw x y n) = .ok effect) :
      Draws stamp machine.screen effect.machine.screen

/-- The stamps are drawn on a screen one after another. -/
inductive Drawn : List Stamp → Screen → Screen → Prop
  | nil (screen : Screen) : Drawn [] screen screen
  | cons {stamp : Stamp} {rest : List Stamp} {start screen stop : Screen} (first : stamp.Draws start screen)
      (later : Drawn rest screen stop) : Drawn (stamp :: rest) start stop

/-- The stamps drawn one after another by the loops over rows and bits. -/
def Guarded.drawStamps : List Stamp → Screen → Guarded Screen
  | [], screen => return screen
  | stamp :: rest, screen => do
    let column ← mod stamp.left.toNat Screen.width
    let row ← mod stamp.top.toNat Screen.height
    let canvas ← drawRows column row stamp.bytes 0 { screen }
    drawStamps rest canvas.screen

/-- The screen combined with all the stamps. -/
def screenAfter (stamps : List Stamp) (screen : Screen) : Screen :=
  stamps.foldl (fun screen stamp => screen.xor stamp.screen) screen

theorem screenAfter_perm {stamps others : List Stamp} (h : others.Perm stamps) (screen : Screen) :
    screenAfter others screen = screenAfter stamps screen :=
  h.foldl_eq' (fun first _ second _ screen => screen.xor_right_comm first.screen second.screen) screen

/-- A sprite may be drawn behind the stamps as well as before them. -/
theorem screenAfter_xor (stamps : List Stamp) (screen other : Screen) :
    screenAfter stamps (screen.xor other) = (screenAfter stamps screen).xor other := by
  induction stamps generalizing screen with
  | nil => rfl
  | cons stamp rest ih =>
    change screenAfter rest ((screen.xor other).xor stamp.screen) = _
    rw [Screen.xor_right_comm, ih]
    rfl

/-- Stamps that are drawn again disappear. -/
theorem screenAfter_screenAfter (stamps : List Stamp) (screen : Screen) :
    screenAfter stamps (screenAfter stamps screen) = screen := by
  induction stamps generalizing screen with
  | nil => rfl
  | cons stamp rest ih =>
    change screenAfter rest ((screenAfter rest (screen.xor stamp.screen)).xor stamp.screen) = screen
    rw [screenAfter_xor, screenAfter_xor, screenAfter_xor, ih, Screen.xor_xor_cancel]

/-! ### What the instructions draw -/

theorem Memory.read_write {memory : Memory} {start : Nat} {bytes : List UInt8} (h : start + bytes.length ≤ 4096) :
    (memory.write start bytes).read start bytes.length = .ok bytes := by
  rw [read_eq_ok h]
  congr 1
  refine Eq.trans ?_ List.ofFn_getElem
  congr 1
  funext k
  rw [getElem_write_add _ _ _ (by omega), List.getD_eq_getElem _ _ k.isLt]

/-- Whatever machine draws the stamp, it combines its screen with that of the stamp. -/
theorem Stamp.Draws.eq_xor {stamp : Stamp} {before after : Screen} (h : stamp.Draws before after) :
    after = before.xor stamp.screen := by
  obtain ⟨left, top, bytes, executes⟩ := h
  simp only [Machine.execute, Machine.drawSprite, bytes, left, top] at executes
  cases executes
  rfl

/-- There is a machine that draws it. -/
theorem Stamp.exists_draws (stamp : Stamp) (before : Screen) : ∃ after, stamp.Draws before after := by
  have hlength := stamp.length_le
  let n : Fin 16 := ⟨stamp.bytes.length, by omega⟩
  let blank : Machine := { screen := before, memory := Memory.initial.write 0 stamp.bytes }
  let machine := (blank.setRegister 0 stamp.left).setRegister 1 stamp.top
  have hleft : machine.register 0 = stamp.left := by
    rw [Machine.register_setRegister, Machine.register_setRegister]
    rfl
  have htop : machine.register 1 = stamp.top := by
    rw [Machine.register_setRegister]
    rfl
  have hin : machine.index.toNat + n.val ≤ 4096 := by
    change 0 + stamp.bytes.length ≤ 4096
    omega
  have hbytes : machine.memory.read machine.index.toNat n.val = .ok stamp.bytes := Memory.read_write hin
  exact ⟨_, .execute hleft htop hbytes (Machine.execute_draw hin)⟩

theorem Stamp.draws_iff {stamp : Stamp} {before after : Screen} :
    stamp.Draws before after ↔ after = before.xor stamp.screen := by
  constructor
  · exact Draws.eq_xor
  · rintro rfl
    obtain ⟨after, h⟩ := stamp.exists_draws before
    rwa [← h.eq_xor]

theorem drawn_iff {stamps : List Stamp} {start stop : Screen} :
    Drawn stamps start stop ↔ stop = screenAfter stamps start := by
  constructor
  · intro h
    induction h with
    | nil screen => rfl
    | cons first later ih =>
      rw [ih, Stamp.draws_iff.1 first]
      rfl
  · rintro rfl
    induction stamps generalizing start with
    | nil => exact .nil start
    | cons stamp rest ih => exact .cons (Stamp.draws_iff.2 rfl) ih

theorem Guarded.drawStamps_eq (stamps : List Stamp) (screen : Screen) :
    drawStamps stamps screen = .ok (screenAfter stamps screen) := by
  induction stamps generalizing screen with
  | nil => rfl
  | cons stamp rest ih =>
    have hlength := stamp.length_le
    have hcolumn : mod stamp.left.toNat Screen.width = .ok (Fin.ofNat 64 stamp.left.toNat).val := mod_of_ne (by decide)
    have hrow : mod stamp.top.toNat Screen.height = .ok (Fin.ofNat 32 stamp.top.toNat).val := mod_of_ne (by decide)
    rw [drawStamps, hcolumn, ok_bind, hrow, ok_bind, drawRows_eq _ _ _ (by omega), ok_bind, ih]
    rfl

/-! ### One instruction, twice -/

namespace Machine

/-- An instruction that draws at the coordinates in the registers finds the same on both machines. -/
structure DrawsAlike (machine other : Machine) (x y : Register) : Prop where
  screen_eq : other.screen = machine.screen
  memory_eq : other.memory = machine.memory
  index_eq : other.index = machine.index
  left_eq : other.register x = machine.register x
  top_eq : other.register y = machine.register y

theorem DrawsAlike.refl (machine : Machine) (x y : Register) : machine.DrawsAlike machine x y :=
  ⟨rfl, rfl, rfl, rfl, rfl⟩

section Draws

variable {machine : Machine} {x y : Register} {n : Fin 16} {command : Command} (hs : command.steps)
  (hf : machine.Fetches (Opcode.ofPair 0xD x y n.val))

include hs hf

/-- Such an instruction only completes if its sprite is inside the memory. -/
theorem sprite_le_of_stepped {outcome : Outcome} {shown : Option Screen}
    (ha : (machine.perform command).answer = .stepped outcome shown) : machine.index.toNat + n.val ≤ 4096 := by
  by_contra hout
  have hfails : Fails (machine.heeded command) (.draw x y n) _ := .draw (by rw [index_heeded]; omega)
  have hfailed := answer_perform_of_error hs (answer_cycle_of_fails hfails (fetches_heeded.2 hf))
  rw [ha] at hfailed
  cases hfailed

variable (hin : machine.index.toNat + n.val ≤ 4096)

include hin

theorem answer_perform_draw : ∃ shown, (machine.perform command).answer = .stepped .drawn shown :=
  (machine_perform_draw hs hf hin).1

theorem screen_perform_draw :
    (machine.perform command).machine.screen = machine.screen.xor (machine.spriteScreen x y n.val) := by
  obtain ⟨-, counter, keypad, pending, delay, sound, hm⟩ := machine_perform_draw hs hf hin
  rw [hm]
  rfl

theorem flag_perform_draw :
    (machine.perform command).machine.register flagRegister = 1 ↔
      machine.screen.overlaps (machine.spriteScreen x y n.val) := by
  obtain ⟨-, counter, keypad, pending, delay, sound, hm⟩ := machine_perform_draw hs hf hin
  have hflag : (machine.perform command).machine.register flagRegister =
      (machine.screen.overlaps (machine.spriteScreen x y n.val)).toUInt8 := by
    rw [hm]
    exact (register_setRegister _ _ _ _).trans (if_pos rfl)
  rw [hflag]
  cases machine.screen.overlaps (machine.spriteScreen x y n.val) <;> decide

/-- The sprite that was drawn is still there to be drawn again, if its coordinates are not in the flag. -/
theorem spriteScreen_perform_draw (hx : x ≠ flagRegister) (hy : y ≠ flagRegister) :
    (machine.perform command).machine.index = machine.index ∧
      (machine.perform command).machine.spriteScreen x y n.val = machine.spriteScreen x y n.val := by
  obtain ⟨-, counter, keypad, pending, delay, sound, hm⟩ := machine_perform_draw hs hf hin
  have hregister : ∀ k, k ≠ flagRegister → (machine.perform command).machine.register k = machine.register k := by
    intro k hk
    rw [hm]
    exact (register_setRegister _ _ _ _).trans (if_neg (Ne.symm hk))
  have hindex : (machine.perform command).machine.index = machine.index := by rw [hm]; rfl
  have hmemory : (machine.perform command).machine.memory = machine.memory := by rw [hm]; rfl
  exact ⟨hindex, spriteScreen_congr hmemory hindex (hregister x hx) (hregister y hy) n.val⟩

end Draws

/-- Drawn again on the screen that it left behind, a sprite disappears.  The flag tells whether a pixel of it was off
before. -/
theorem perform_draw_again {machine again : Machine} {x y : Register} {n : Fin 16} {command other : Command}
    (hs : command.steps) (hf : machine.Fetches (Opcode.ofPair 0xD x y n.val))
    (hin : machine.index.toNat + n.val ≤ 4096) (hx : x ≠ flagRegister) (hy : y ≠ flagRegister)
    (h : (machine.perform command).machine.DrawsAlike again x y) (hs' : other.steps)
    (hf' : again.Fetches (Opcode.ofPair 0xD x y n.val)) :
    (∃ shown, (again.perform other).answer = .stepped .drawn shown) ∧
      (again.perform other).machine.screen = machine.screen ∧
      ((again.perform other).machine.register flagRegister = 1 ↔
        ∃ column row, machine.screen.pixel column row = false ∧ machine.spriteBit x y n.val column row = true) := by
  obtain ⟨hindex, hsprite⟩ := spriteScreen_perform_draw hs hf hin hx hy
  have hscreen := screen_perform_draw hs hf hin
  have hsprite' : again.spriteScreen x y n.val = machine.spriteScreen x y n.val :=
    (spriteScreen_congr h.memory_eq h.index_eq h.left_eq h.top_eq n.val).trans hsprite
  have hscreen' : again.screen = machine.screen.xor (machine.spriteScreen x y n.val) := h.screen_eq.trans hscreen
  have hin' : again.index.toNat + n.val ≤ 4096 := by rwa [h.index_eq, hindex]
  refine ⟨answer_perform_draw hs' hf' hin', ?_, ?_⟩
  · rw [screen_perform_draw hs' hf' hin', hsprite', hscreen', Screen.xor_xor_cancel]
  · rw [flag_perform_draw hs' hf' hin', hsprite', hscreen', Screen.overlaps_xor_iff]
    simp only [pixel_spriteScreen]

/-- Sprites of at most fifteen rows may be drawn in any order, by the instruction and by its loops alike, and when all
of them are drawn again the screen is as before.  An instruction that draws and completes, run again where it finds the
screen that it left behind and all else that it looks at unchanged, completes too and brings back the screen from
before; the first flag tells whether a pixel of its sprite was on there, the second whether one was off. -/
theorem drawings_commute_and_cancel :
    (∀ (stamps : List Stamp) (start : Screen), ∃ stop,
      (∀ others : List Stamp, others.Perm stamps →
        (∀ screen, Drawn others start screen ↔ screen = stop) ∧ Guarded.drawStamps others start = .ok stop) ∧
      (∀ screen, Drawn stamps stop screen ↔ screen = start) ∧ Guarded.drawStamps stamps stop = .ok start) ∧
    ∀ (machine : Machine) (x y : Register) (n : Fin 16) (command : Command) (outcome : Outcome) (shown : Option Screen),
      x ≠ flagRegister → y ≠ flagRegister → command.steps → machine.Fetches (Opcode.ofPair 0xD x y n.val) →
      (machine.perform command).answer = .stepped outcome shown →
      let drawn := (machine.perform command).machine
      (drawn.register flagRegister = 1 ↔
        ∃ column row, machine.screen.pixel column row = true ∧ machine.spriteBit x y n.val column row = true) ∧
      ∀ (again : Machine) (other : Command), drawn.DrawsAlike again x y → other.steps →
        again.Fetches (Opcode.ofPair 0xD x y n.val) →
        (∃ shown, (again.perform other).answer = .stepped .drawn shown) ∧
        (again.perform other).machine.screen = machine.screen ∧
        ((again.perform other).machine.register flagRegister = 1 ↔
          ∃ column row, machine.screen.pixel column row = false ∧ machine.spriteBit x y n.val column row = true) := by
  refine ⟨?lists, ?twice⟩
  case lists =>
    intro stamps start
    refine ⟨screenAfter stamps start, ?_, ?_⟩
    · intro others hperm
      rw [Guarded.drawStamps_eq, ← screenAfter_perm hperm]
      exact ⟨fun screen => drawn_iff, rfl⟩
    · rw [Guarded.drawStamps_eq, screenAfter_screenAfter]
      refine ⟨fun screen => ?_, rfl⟩
      rw [drawn_iff, screenAfter_screenAfter]
  case twice =>
    intro machine x y n command outcome shown hx hy hs hf ha
    have hin := sprite_le_of_stepped hs hf ha
    have hflag := flag_perform_draw hs hf hin
    simp only [Screen.overlaps_iff, pixel_spriteScreen] at hflag
    exact ⟨hflag, fun again other halike hs' hf' => perform_draw_again hs hf hin hx hy halike hs' hf'⟩

/-- The glyph of zero over itself, one column aside at the lower right corner: two stamps, and two runs of an
instruction. -/
theorem drawings_commute_and_cancel_corner :
    let first : Stamp := ⟨0x3E, 0x1E, [0xF0, 0x90, 0x90, 0x90, 0xF0], by decide⟩
    let second : Stamp := ⟨0x3D, 0x1E, [0xF0, 0x90, 0x90, 0x90, 0xF0], by decide⟩
    let machine := (create .perStep {}).machine.after
      [.load [0xA0, 0x50, 0x60, 0x3E, 0x61, 0x1E, 0xD0, 0x15, 0x60, 0x3D, 0xD0, 0x15, 0xD0, 0x15],
        .step, .step, .step, .step, .step]
    let drawn := (machine.perform .step).machine
    Guarded.drawStamps [second, first] .blank = Guarded.drawStamps [first, second] .blank ∧
      drawn.register flagRegister = 1 ∧ (drawn.perform (.tick [])).machine.register flagRegister = 1 ∧
      (drawn.perform (.tick [])).machine.screen = machine.screen := by
  intro first second machine drawn
  obtain ⟨⟨hcounter, hhigh, hlow, hin⟩, hcounter', hhigh', hlow'⟩ :
      (machine.counter.toNat = 0x20A ∧ machine.memory[0x20A] = 0xD0 ∧ machine.memory[0x20B] = 0x15 ∧
          machine.index.toNat + 5 ≤ 4096) ∧
        drawn.counter.toNat = 0x20C ∧ drawn.memory[0x20C] = 0xD0 ∧ drawn.memory[0x20D] = 0x15 := by
    decide +kernel
  obtain ⟨hon, hoff⟩ :
      (machine.screen.pixel 62 30 = true ∧ machine.spriteBit 0 1 (5 : Fin 16).val 62 30 = true) ∧
        machine.screen.pixel 61 30 = false ∧ machine.spriteBit 0 1 (5 : Fin 16).val 61 30 = true := by
    decide +kernel
  have hopcode : Opcode.ofBytes 0xD0 0x15 = Opcode.ofPair 0xD 0 1 (5 : Fin 16).val := by decide
  have hdrawn : drawn = (machine.perform .step).machine := rfl
  clear_value drawn machine
  have hf := fetches_of_getElem hcounter (by decide) hhigh hlow
  have hf' := fetches_of_getElem hcounter' (by decide) hhigh' hlow'
  rw [hopcode] at hf hf'
  subst hdrawn
  obtain ⟨shown, ha⟩ := answer_perform_draw (show Command.step.steps from rfl) hf hin
  obtain ⟨hlists, htwice⟩ := drawings_commute_and_cancel
  obtain ⟨stop, horder, -⟩ := hlists [first, second] .blank
  obtain ⟨hflag, hagain⟩ := htwice machine 0 1 5 .step .drawn shown (by decide) (by decide) rfl hf ha
  obtain ⟨-, hscreen, hflag'⟩ := hagain _ (.tick []) (.refl _ 0 1) rfl hf'
  refine ⟨?_, hflag.2 ⟨62, 30, hon⟩, hflag'.2 ⟨61, 30, hoff⟩, hscreen⟩
  rw [(horder _ (.swap first second [])).2, (horder _ (.refl _)).2]

end Machine

end Chip8
