import Chip8.Guarded.Screen

/-!
# Drawing is exclusive or

The loops that turn one pixel after another leave the screen that `Screen.xor` with the whole sprite gives, and their
collisions tell whether the two overlap (`Guarded.drawRows_eq`).  `Canvas.Shows` is the invariant: it says which part
of a sprite was drawn over the screen that the drawing started from.
-/

namespace Chip8

namespace Screen

theorem pixel_spot (x column : Fin 64) (y row : Fin 32) :
    (spot x y).pixel column row = (decide (row = y) && decide (column = x)) := by
  have hx := x.isLt
  have hc := column.isLt
  simp only [pixel, spot, Vector.getElem_ofFn]
  by_cases hr : row = y
  · subst hr
    have hbit : 63 - x.val = 63 - column.val ↔ column = x := by omega
    have hlt : 63 - x.val < 64 := by omega
    simp only [if_pos trivial, BitVec.getMsbD_eq_getLsbD, BitVec.getLsbD_twoPow, hc, hbit, hlt, decide_true,
      Bool.true_and]
  · simp [hr]

theorem columnOf_eq {place : Fin resolution} {x : Fin 64} {y : Nat} (h : place.val = y * 64 + x.val) :
    columnOf place = x := by
  apply Fin.ext
  have hx := x.isLt
  simp only [columnOf, h, Fin.val_ofNat]
  omega

theorem rowOf_eq {place : Fin resolution} {x : Nat} {y : Fin 32} (h : place.val = y.val * 64 + x) (hx : x < 64) :
    rowOf place = y := by
  apply Fin.ext
  have hy := y.isLt
  simp only [rowOf, h, Fin.val_ofNat]
  omega

end Screen

namespace Guarded

/-! ### One pixel -/

/-- Inside the screen every pixel has a place, and the place has its coordinates. -/
theorem place_val (x : Fin 64) (y : Fin 32) :
    ∃ pos, place x.val y.val = .ok pos ∧ Screen.columnOf pos = x ∧ Screen.rowOf pos = y := by
  have hx := x.isLt
  have hy := y.isLt
  have hwidth : Screen.width = 64 := rfl
  have hlt : y.val * 64 + x.val < Screen.resolution := by
    rw [show Screen.resolution = 2048 from rfl]
    omega
  refine ⟨⟨_, hlt⟩, ?_, Screen.columnOf_eq rfl, Screen.rowOf_eq rfl hx⟩
  rw [place, hwidth, mul_of_lt (by omega), ok_bind, add_of_lt (by omega), ok_bind, index_of_lt hlt]

theorem pixel?_eq (screen : Screen) (x y : Nat) : pixel? screen x y = .ok (screen.pixel? x y) := by
  by_cases h : x < Screen.width ∧ y < Screen.height
  · obtain ⟨pos, hp, hc, hr⟩ := place_val ⟨x, h.1⟩ ⟨y, h.2⟩
    rw [pixel?, if_pos h, hp, ok_bind, pure_eq_ok, hc, hr, Screen.pixel?, dif_pos (show x < 64 ∧ y < 32 from h)]
  · rw [pixel?, if_neg h, pure_eq_ok, Screen.pixel?, dif_neg (show ¬(x < 64 ∧ y < 32) from h)]

/-- A pixel that was on is off afterwards. -/
theorem toggle_val (screen : Screen) (x : Fin 64) (y : Fin 32) :
    toggle screen x.val y.val = .ok (screen.pixel x y, screen.xor (.spot x y)) := by
  obtain ⟨pos, hp, hc, hr⟩ := place_val x y
  rw [toggle, ensure_of ⟨x.isLt, y.isLt⟩, ok_bind, hp, ok_bind, pure_eq_ok, hc, hr, Screen.pixel_xor,
    Screen.pixel_spot]
  simp

example : toggle .blank 64 0 = .error .assertion := rfl

/-! ### The invariant of the loops -/

/-- The part of a sprite is drawn over a screen; the pixels that were on in both of them collided. -/
structure Canvas.Shows (canvas : Canvas) (start : Screen) (part : Fin 64 → Fin 32 → Bool) : Prop where
  pixel_eq : ∀ x y, canvas.screen.pixel x y = (start.pixel x y ^^ part x y)
  collided_iff : canvas.collided = true ↔ ∃ x y, start.pixel x y = true ∧ part x y = true

namespace Canvas.Shows

variable {canvas : Canvas} {start : Screen} {part other : Fin 64 → Fin 32 → Bool}

theorem blank (start : Screen) : Shows { screen := start } start fun _ _ => false where
  pixel_eq := fun x y => (Bool.xor_false _).symm
  collided_iff := by simp

theorem congr (h : canvas.Shows start part) (he : ∀ x y, other x y = part x y) : canvas.Shows start other := by
  have : other = part := funext fun x => funext fun y => he x y
  rwa [this]

/-- A pixel that does not belong to the part yet is added to it. -/
theorem toggle (h : canvas.Shows start part) {x : Fin 64} {y : Fin 32} (hp : part x y = false) :
    Shows { screen := canvas.screen.xor (.spot x y), collided := canvas.collided || canvas.screen.pixel x y } start
      fun column row => part column row || (decide (row = y) && decide (column = x)) where
  pixel_eq := by
    intro column row
    rw [Screen.pixel_xor, Screen.pixel_spot, h.pixel_eq]
    by_cases hc : row = y ∧ column = x
    · obtain ⟨rfl, rfl⟩ := hc
      simp [hp]
    · have hd : (decide (row = y) && decide (column = x)) = false := by simpa using hc
      rw [hd, Bool.xor_false, Bool.or_false]
  collided_iff := by
    have hpixel : canvas.screen.pixel x y = start.pixel x y := by rw [h.pixel_eq, hp, Bool.xor_false]
    simp only [Bool.or_eq_true, h.collided_iff, hpixel, Bool.and_eq_true, decide_eq_true_eq]
    constructor
    · rintro (⟨column, row, hs, hc⟩ | hs)
      · exact ⟨column, row, hs, .inl hc⟩
      · exact ⟨x, y, hs, .inr ⟨rfl, rfl⟩⟩
    · rintro ⟨column, row, hs, hc | ⟨rfl, rfl⟩⟩
      · exact .inl ⟨column, row, hs, hc⟩
      · exact .inr hs

/-- When the part is the whole sprite, the canvas is what the exclusive or gives. -/
theorem eq_of_pixel {sprite : Screen} (h : canvas.Shows start part) (hs : ∀ x y, sprite.pixel x y = part x y) :
    canvas = { screen := start.xor sprite, collided := start.overlaps sprite } := by
  have hscreen : canvas.screen = start.xor sprite := by
    apply Screen.ext_pixel
    intro x y
    rw [h.pixel_eq, Screen.pixel_xor, hs]
  have hcollided : canvas.collided = start.overlaps sprite := by
    rw [Bool.eq_iff_iff, h.collided_iff, Screen.overlaps, Bool.not_eq_true', ← Bool.not_eq_true, Screen.isBlank_iff]
    simp [hs]
  cases canvas
  cases hscreen
  cases hcollided
  rfl

end Canvas.Shows

/-! ### Rows -/

/-- A byte has the bit that the mask selects, counted from the highest. -/
theorem and_mask_eq_iff (byte : BitVec 8) {j : Nat} (h : j < 8) :
    byte &&& ((0x80 : BitVec 8) >>> j) = (0x80 : BitVec 8) >>> j ↔ byte.getMsbD j = true := by
  have hmask : (0x80 : BitVec 8) >>> j = BitVec.twoPow 8 (7 - j) :=
    (show ∀ j : Fin 8, (0x80 : BitVec 8) >>> j.val = BitVec.twoPow 8 (7 - j.val) by decide) ⟨j, h⟩
  have hne : BitVec.twoPow 8 (7 - j) ≠ 0#8 :=
    (show ∀ j : Fin 8, BitVec.twoPow 8 (7 - j.val) ≠ 0#8 by decide) ⟨j, h⟩
  rw [hmask, BitVec.and_twoPow, BitVec.getMsbD_eq_getLsbD, decide_eq_true h, Bool.true_and]
  cases hb : byte.getLsbD (7 - j) <;> simp [hne.symm]

theorem drawRow_of_le {byte : UInt8} {column : Fin 64} {row n j : Nat} {canvas : Canvas} (hj : j < 8)
    (h : 64 ≤ column.val + j) : drawRow byte column.val row (n + 1) j canvas = .ok canvas := by
  have hcolumn := column.isLt
  rw [drawRow, add_of_lt (by omega), ok_bind, if_pos (show Screen.width ≤ _ from h), pure_eq_ok]

theorem drawRow_of_lt {byte : UInt8} {column : Fin 64} {row : Fin 32} {n j : Nat} {canvas : Canvas} (hj : j < 8)
    (h : column.val + j < 64) :
    drawRow byte column.val row.val (n + 1) j canvas =
      drawRow byte column.val row.val n (j + 1)
        (if byte.toBitVec.getMsbD j then
          { screen := canvas.screen.xor (.spot ⟨_, h⟩ row)
            collided := canvas.collided || canvas.screen.pixel ⟨_, h⟩ row }
        else canvas) := by
  rw [drawRow, add_of_lt (by omega), ok_bind, if_neg (show ¬Screen.width ≤ _ from Nat.not_le.2 h),
    shiftRight_of_lt hj, ok_bind]
  by_cases hb : byte.toBitVec.getMsbD j = true
  · rw [if_pos ((and_mask_eq_iff _ hj).2 hb), if_pos hb, toggle_val canvas.screen ⟨_, h⟩ row, ok_bind]
  · rw [if_neg (fun e => hb ((and_mask_eq_iff _ hj).1 e)), if_neg hb]

/-- From some number on, or at it and from the next one on. -/
private theorem le_and_eq (p : Nat → Bool) (a x : Nat) :
    (decide (a ≤ x) && p x) = ((decide (x = a) && p a) || (decide (a + 1 ≤ x) && p x)) := by
  rcases Nat.lt_trichotomy x a with h | rfl | h
  · have h₁ : ¬a ≤ x := by omega
    have h₂ : ¬a + 1 ≤ x := by omega
    simp [h₁, h₂, Nat.ne_of_lt h]
  · simp
  · have h₁ : a ≤ x := by omega
    have h₂ : a + 1 ≤ x := by omega
    simp [h₁, h₂, Nat.ne_of_gt h]

/-- The bits of a byte from bit `j` on are added to the part. -/
theorem drawRow_shows {start : Screen} (byte : UInt8) (column : Fin 64) (row : Fin 32) {n j : Nat} (hn : j + n = 8)
    {canvas : Canvas} {part : Fin 64 → Fin 32 → Bool} (h : canvas.Shows start part)
    (hp : ∀ x : Fin 64, column.val + j ≤ x.val → part x row = false) :
    ∃ drawn, drawRow byte column.val row.val n j canvas = .ok drawn ∧ drawn.Shows start fun x y => part x y ||
      (decide (y = row) && (decide (column.val + j ≤ x.val) && byte.toBitVec.getMsbD (x.val - column.val))) := by
  induction n generalizing j canvas part with
  | zero =>
    refine ⟨canvas, rfl, h.congr fun x y => ?_⟩
    by_cases hx : column.val + j ≤ x.val
    · rw [BitVec.getMsbD_of_ge _ _ (by omega), Bool.and_false, Bool.and_false, Bool.or_false]
    · simp [hx]
  | succ n ih =>
    by_cases hlt : column.val + j < 64
    · rw [drawRow_of_lt (by omega) hlt]
      have hbits := le_and_eq (fun x => byte.toBitVec.getMsbD (x - column.val)) (column.val + j)
      simp only [Nat.add_sub_cancel_left] at hbits
      cases hb : byte.toBitVec.getMsbD j with
      | false =>
        obtain ⟨drawn, hd, hs⟩ := ih (show j + 1 + n = 8 by omega) h fun x hx => hp x (by omega)
        refine ⟨drawn, hd, hs.congr fun x y => ?_⟩
        rw [hbits, hb, Bool.and_false, Bool.false_or, Nat.add_assoc]
      | true =>
        have ht := h.toggle (hp ⟨_, hlt⟩ (Nat.le_refl _))
        obtain ⟨drawn, hd, hs⟩ := ih (show j + 1 + n = 8 by omega) ht fun x hx => by
          have hne : x.val ≠ column.val + j := by omega
          simp [hp x (by omega), Fin.ext_iff, hne]
        refine ⟨drawn, hd, hs.congr fun x y => ?_⟩
        rw [hbits, hb, Bool.and_true, Bool.and_or_distrib_left, ← Bool.or_assoc, Nat.add_assoc]
        simp only [Fin.ext_iff]
    · -- no column is left
      refine ⟨canvas, drawRow_of_le (by omega) (Nat.not_lt.1 hlt), h.congr fun x y => ?_⟩
      have hx : ¬column.val + j ≤ x.val := by omega
      simp [hx]

/-- The rows from row `i` on are added to the part. -/
theorem drawRows_shows {start : Screen} (column : Fin 64) (row : Fin 32) {bytes : List UInt8} {i : Nat}
    (hi : i + bytes.length < 32) {canvas : Canvas} {part : Fin 64 → Fin 32 → Bool} (h : canvas.Shows start part)
    (hp : ∀ (x : Fin 64) (y : Fin 32), row.val + i ≤ y.val → part x y = false) :
    ∃ drawn, drawRows column.val row.val bytes i canvas = .ok drawn ∧ drawn.Shows start fun x y => part x y ||
      (decide (row.val + i ≤ y.val) && (decide (column.val ≤ x.val) &&
        (bytes.getD (y.val - (row.val + i)) 0).toBitVec.getMsbD (x.val - column.val))) := by
  have hrow := row.isLt
  induction bytes generalizing i canvas part with
  | nil =>
    refine ⟨canvas, rfl, h.congr fun x y => ?_⟩
    simp
  | cons byte rest ih =>
    rw [List.length_cons] at hi
    rw [drawRows, add_of_lt (by omega), ok_bind]
    by_cases hlt : row.val + i < 32
    · rw [if_neg (show ¬Screen.height ≤ _ from Nat.not_le.2 hlt)]
      obtain ⟨first, hd, hs⟩ := drawRow_shows byte column ⟨row.val + i, hlt⟩ (show 0 + 8 = 8 from rfl) h
        fun x _ => hp x _ (Nat.le_refl _)
      obtain ⟨drawn, hd', hs'⟩ := ih (show i + 1 + rest.length < 32 by omega) hs fun x y hy => by
        have hne : y.val ≠ row.val + i := by omega
        simp [hp x y (by omega), Fin.ext_iff, hne]
      refine ⟨drawn, by rw [Screen.spriteWidth, hd, ok_bind, hd'], hs'.congr fun x y => ?_⟩
      have hrows := le_and_eq (fun y => decide (column.val ≤ x.val) &&
        ((byte :: rest).getD (y - (row.val + i)) 0).toBitVec.getMsbD (x.val - column.val)) (row.val + i) y.val
      rw [hrows, Nat.sub_self, List.getD_cons_zero, ← Bool.or_assoc]
      congr 1
      · simp [Fin.ext_iff]
      · by_cases hy : row.val + i + 1 ≤ y.val
        · have hsub : y.val - (row.val + i) = y.val - (row.val + (i + 1)) + 1 := by omega
          rw [hsub, List.getD_cons_succ]
          rfl
        · have hy' : ¬row.val + (i + 1) ≤ y.val := by omega
          simp [hy, hy']
    · -- no row is left
      refine ⟨canvas, by rw [if_pos (show Screen.height ≤ _ from Nat.not_lt.1 hlt), pure_eq_ok], h.congr fun x y => ?_⟩
      have hy : ¬row.val + i ≤ y.val := by omega
      simp [hy]

/-- The loops draw as the exclusive or with the sprite does, and none of their checks fails. -/
theorem drawRows_eq (screen : Screen) (column : Fin 64) (row : Fin 32) {bytes : List UInt8} (h : bytes.length < 32) :
    drawRows column.val row.val bytes 0 { screen } =
      .ok { screen := screen.xor (.sprite column row bytes)
            collided := screen.overlaps (.sprite column row bytes) } := by
  obtain ⟨drawn, hd, hs⟩ := drawRows_shows column row (show 0 + bytes.length < 32 by omega)
    (Canvas.Shows.blank screen) fun _ _ _ => rfl
  rw [hd, hs.eq_of_pixel fun x y => ?_]
  rw [Screen.pixel_sprite, Bool.false_or, Bool.and_assoc]
  rfl

end Guarded

end Chip8
