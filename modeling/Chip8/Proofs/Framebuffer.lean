import Chip8.Console.Framebuffer
import Chip8.Proofs.Drawing
import Mathlib.Data.List.OfFn

/-!
# The screen in the framebuffer

`Framebuffer.screen` is the screen that a framebuffer shows.  The invariant is `Framebuffer.Binary`, which clearing,
turning a pixel and drawing keep.  As long as it holds, these are what `Screen` has for them (`fst_toggle`,
`screen_toggle`, `canvas_drawRows`), and the bytes are those that the screen stands for (`bytes_screen`).
-/

namespace Chip8.Framebuffer

/-- The screen that the bytes show. -/
def screen (framebuffer : Framebuffer) : Screen where
  rows := .ofFn fun y =>
    (BitVec.ofBoolListBE (List.ofFn fun x => framebuffer.pixel x y == 1)).cast List.length_ofFn

/-- Every pixel is off or on. -/
def Binary (framebuffer : Framebuffer) : Prop := ∀ value ∈ framebuffer.pixels, value = 0 ∨ value = 1

theorem pixel_screen (framebuffer : Framebuffer) (x : Fin 64) (y : Fin 32) :
    framebuffer.screen.pixel x y = (framebuffer.pixel x y == 1) := by
  simp only [Screen.pixel, screen, Vector.getElem_ofFn, BitVec.getMsbD_cast, BitVec.getMsbD_ofBoolListBE]
  rw [List.getD_eq_getElem?_getD, List.getElem?_ofFn, dif_pos x.isLt, Option.getD_some]

/-- No two pixels have one place. -/
theorem place_eq_iff {x column : Fin 64} {y row : Fin 32} : place x y = place column row ↔ x = column ∧ y = row := by
  simp only [place, Fin.ext_iff]
  omega

theorem Binary.pixel {framebuffer : Framebuffer} (h : framebuffer.Binary) (x : Fin 64) (y : Fin 32) :
    framebuffer.pixel x y = 0 ∨ framebuffer.pixel x y = 1 :=
  h _ (Vector.getElem_mem _)

theorem binary_new : Binary {} := fun _ hv => .inl (Vector.eq_of_mem_replicate hv)

theorem screen_new : screen {} = .blank := by
  apply Screen.ext_pixel
  intro x y
  have hzero : ({} : Framebuffer).pixel x y = 0 := Vector.getElem_replicate _
  rw [pixel_screen, Screen.pixel_blank, hzero]
  rfl

theorem clear_eq_new (framebuffer : Framebuffer) : framebuffer.clear = {} := by
  rw [clear, Vector.map_const']

/-! ### Pixels -/

theorem pixel_toggle (framebuffer : Framebuffer) (x column : Fin 64) (y row : Fin 32) :
    (framebuffer.toggle x y).2.pixel column row =
      if column = x ∧ row = y then framebuffer.pixel x y ^^^ 1 else framebuffer.pixel column row := by
  have hplace : (place x y).val = (place column row).val ↔ column = x ∧ row = y := by
    rw [← Fin.ext_iff, place_eq_iff, eq_comm, eq_comm (a := y)]
  have hset : (framebuffer.toggle x y).2.pixel column row = _ :=
    Vector.getElem_set (place x y).isLt (place column row).isLt
  rw [hset]
  simp only [hplace]
  rfl

private theorem toList_eq_ofFn {α : Type} {n : Nat} (values : Vector α n) :
    values.toList = List.ofFn fun k => values[k.val] := by
  rw [← Vector.toList_ofFn, Vector.ofFn_getElem]

section Binary

variable {framebuffer : Framebuffer} (h : framebuffer.Binary)

include h

theorem Binary.toggle (x : Fin 64) (y : Fin 32) : (framebuffer.toggle x y).2.Binary := by
  intro value hv
  have hset : value ∈ framebuffer.pixels.set (place x y).val (framebuffer.pixel x y ^^^ 1) := hv
  rcases Vector.mem_or_eq_of_mem_set hset with hv | rfl
  · exact h value hv
  · rcases h.pixel x y with hp | hp <;> rw [hp]
    · exact .inr rfl
    · exact .inl rfl

/-- A pixel that was on is off afterwards. -/
theorem fst_toggle (x : Fin 64) (y : Fin 32) : (framebuffer.toggle x y).1 = framebuffer.screen.pixel x y := by
  rw [pixel_screen, Framebuffer.toggle]
  rcases h.pixel x y with hp | hp <;> rw [hp] <;> rfl

theorem screen_toggle (x : Fin 64) (y : Fin 32) :
    (framebuffer.toggle x y).2.screen = framebuffer.screen.xor (.spot x y) := by
  apply Screen.ext_pixel
  intro column row
  rw [pixel_screen, pixel_toggle, Screen.pixel_xor, Screen.pixel_spot, pixel_screen]
  by_cases hc : column = x ∧ row = y
  · obtain ⟨rfl, rfl⟩ := hc
    rw [if_pos ⟨rfl, rfl⟩]
    rcases h.pixel column row with hp | hp <;> simp [hp]
  · have hd : (decide (row = y) && decide (column = x)) = false := by
      rw [Bool.and_comm]
      simpa using hc
    rw [if_neg hc, hd, Bool.xor_false]

private theorem bytes_row (y : Fin 32) :
    ((List.range Screen.width).map fun x => ((framebuffer.screen.rows.get y).getMsbD x).toUInt8) =
      List.ofFn fun x : Fin 64 => framebuffer.pixel x y := by
  apply List.ext_getElem?
  intro k
  rw [List.getElem?_map, List.getElem?_ofFn]
  by_cases hk : k < 64
  · have hp : (framebuffer.screen.rows.get y).getMsbD k = _ := framebuffer.pixel_screen ⟨k, hk⟩ y
    rw [List.getElem?_range (show k < Screen.width from hk), Option.map_some, dif_pos hk, hp]
    rcases h.pixel ⟨k, hk⟩ y with hv | hv <;> rw [hv] <;> rfl
  · rw [List.getElem?_eq_none (by simpa [Screen.width] using hk), dif_neg hk, Option.map_none]

/-- The bytes are those that the screen stands for. -/
theorem bytes_screen : framebuffer.screen.bytes = framebuffer.pixels.toList := by
  have hrows := toList_eq_ofFn framebuffer.screen.rows
  have hpixels := (toList_eq_ofFn framebuffer.pixels).trans
    (List.ofFn_mul (m := 32) (n := 64) fun k : Fin 2048 => framebuffer.pixels[k.val])
  rw [Screen.bytes, hrows, hpixels, List.flatMap_def, List.map_ofFn]
  exact congrArg List.flatten (congrArg List.ofFn (funext (bytes_row h)))

end Binary

/-! ### Sprites -/

/-- What a drawing has come to, as a screen. -/
def Drawing.canvas (drawing : Drawing) : Guarded.Canvas where
  screen := drawing.framebuffer.screen
  collided := drawing.collided

theorem drawRow_canvas (byte : UInt8) (column : Fin 64) (row : Fin 32) {n j : Nat} (hj : j + n = 8)
    {drawing : Drawing} (h : drawing.framebuffer.Binary) :
    Guarded.drawRow byte column.val row.val n j drawing.canvas =
        .ok (drawRow byte column.val row n j drawing).canvas ∧
      (drawRow byte column.val row n j drawing).framebuffer.Binary := by
  induction n generalizing j drawing with
  | zero => exact ⟨rfl, h⟩
  | succ n ih =>
    have hlt : j < 8 := by omega
    have hrest : j + 1 + n = 8 := by omega
    by_cases hc : column.val + j < 64
    · rw [Guarded.drawRow_of_lt hlt hc, drawRow, dif_pos hc]
      by_cases hb : byte.toBitVec.getMsbD j = true
      · have ht : ({ screen := drawing.canvas.screen.xor (.spot ⟨_, hc⟩ row)
                     collided := drawing.canvas.collided || drawing.canvas.screen.pixel ⟨_, hc⟩ row } : Guarded.Canvas)
            = Drawing.canvas { framebuffer := (drawing.framebuffer.toggle ⟨_, hc⟩ row).2
                               collided := drawing.collided || (drawing.framebuffer.toggle ⟨_, hc⟩ row).1 } := by
          rw [Drawing.canvas, Drawing.canvas, fst_toggle h, screen_toggle h]
        rw [if_pos hb, if_pos ((Guarded.and_mask_eq_iff _ hlt).2 hb), ht]
        exact ih hrest (h.toggle _ _)
      · rw [if_neg hb, if_neg (fun e => hb ((Guarded.and_mask_eq_iff _ hlt).1 e))]
        exact ih hrest h
    · rw [Guarded.drawRow_of_le hlt (Nat.not_lt.1 hc), drawRow, dif_neg hc]
      exact ⟨rfl, h⟩

theorem drawRows_canvas (column : Fin 64) (row : Fin 32) {bytes : List UInt8} {i : Nat} (hi : i + bytes.length < 32)
    {drawing : Drawing} (h : drawing.framebuffer.Binary) :
    Guarded.drawRows column.val row.val bytes i drawing.canvas =
        .ok (drawRows column.val row.val bytes i drawing).canvas ∧
      (drawRows column.val row.val bytes i drawing).framebuffer.Binary := by
  induction bytes generalizing i drawing with
  | nil => exact ⟨rfl, h⟩
  | cons byte rest ih =>
    have hrow := row.isLt
    rw [List.length_cons] at hi
    rw [Guarded.drawRows, Guarded.add_of_lt (by omega), Guarded.ok_bind, drawRows]
    by_cases hlt : row.val + i < 32
    · obtain ⟨hd, hb⟩ := drawRow_canvas byte column ⟨row.val + i, hlt⟩ (show 0 + Screen.spriteWidth = 8 from rfl) h
      rw [if_neg (show ¬Screen.height ≤ _ from Nat.not_le.2 hlt), dif_pos hlt, hd, Guarded.ok_bind]
      exact ih (by omega) hb
    · rw [if_pos (show Screen.height ≤ _ from Nat.not_lt.1 hlt), dif_neg hlt]
      exact ⟨rfl, h⟩

section Sprite

variable {framebuffer : Framebuffer} (h : framebuffer.Binary) (column : Fin 64) (row : Fin 32) {bytes : List UInt8}
  (hl : bytes.length < 32)

include h hl

theorem Binary.drawRows : (drawRows column.val row.val bytes 0 { framebuffer }).framebuffer.Binary := by
  have hi : 0 + bytes.length < 32 := by omega
  exact (drawRows_canvas column row hi h).2

/-- The loops draw on the bytes what the exclusive or with the sprite draws on the screen. -/
theorem canvas_drawRows :
    (Framebuffer.drawRows column.val row.val bytes 0 { framebuffer }).canvas =
      { screen := framebuffer.screen.xor (.sprite column row bytes)
        collided := framebuffer.screen.overlaps (.sprite column row bytes) } := by
  have hi : 0 + bytes.length < 32 := by omega
  have hd := (drawRows_canvas column row hi (show Framebuffer.Binary (Drawing.framebuffer { framebuffer }) from h)).1
  have hstart : Drawing.canvas { framebuffer } = { screen := framebuffer.screen } := rfl
  rw [hstart, Guarded.drawRows_eq framebuffer.screen column row hl] at hd
  exact (Except.ok.inj hd).symm

end Sprite

end Chip8.Framebuffer
