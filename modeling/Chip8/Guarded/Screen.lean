import Chip8.Guarded.Basic
import Chip8.Screen

/-!
# Drawing pixel by pixel

Sprites drawn by loops over their rows and over the bits of a row, with the checks of `Guarded`.  The pixels are
counted row by row, so a pixel has one place among all of them.
-/

namespace Chip8

namespace Screen

/-- The column of the pixel at a place. -/
def columnOf (place : Fin resolution) : Fin 64 := .ofNat 64 place.val

/-- The row of the pixel at a place. -/
def rowOf (place : Fin resolution) : Fin 32 := .ofNat 32 (place.val / 64)

/-- The screen on which a single pixel is on. -/
def spot (x : Fin 64) (y : Fin 32) : Screen where
  rows := .ofFn fun row => if row = y then .twoPow 64 (63 - x.val) else 0

end Screen

namespace Guarded

/-- A drawing in progress: the screen, and whether a pixel went off so far. -/
structure Canvas where
  screen : Screen
  collided : Bool := false

/-- The place of a pixel. -/
def place (x y : Nat) : Guarded (Fin Screen.resolution) := do
  index (← add (← mul y Screen.width) x) Screen.resolution

/-- The pixel at any coordinates. -/
def pixel? (screen : Screen) (x y : Nat) : Guarded (Option Bool) := do
  if x < Screen.width ∧ y < Screen.height then
    let place ← place x y
    return some (screen.pixel (Screen.columnOf place) (Screen.rowOf place))
  else return none

/-- The screen with a pixel turned, and whether the pixel is off now. -/
def toggle (screen : Screen) (x y : Nat) : Guarded (Bool × Screen) := do
  ensure (x < Screen.width ∧ y < Screen.height)
  let place ← place x y
  let toggled := screen.xor (.spot (Screen.columnOf place) (Screen.rowOf place))
  return (!toggled.pixel (Screen.columnOf place) (Screen.rowOf place), toggled)

/-- Draws `n` bits of a byte, bit `j` first.  The row ends at the right edge. -/
def drawRow (byte : UInt8) (column row : Nat) : Nat → Nat → Canvas → Guarded Canvas
  | 0, _, canvas => return canvas
  | n + 1, j, canvas => do
    let x ← add column j
    if Screen.width ≤ x then return canvas
    else
      let mask ← shiftRight (0x80 : BitVec 8) j
      if byte.toBitVec &&& mask = mask then
        let (off, screen) ← toggle canvas.screen x row
        drawRow byte column row n (j + 1) { screen, collided := canvas.collided || off }
      else drawRow byte column row n (j + 1) canvas

/-- Draws the bytes as rows, of which the first has number `i`.  The sprite ends at the lower edge. -/
def drawRows (column row : Nat) : List UInt8 → Nat → Canvas → Guarded Canvas
  | [], _, canvas => return canvas
  | byte :: rest, i, canvas => do
    let y ← add row i
    if Screen.height ≤ y then return canvas
    else
      let drawn ← drawRow byte column y Screen.spriteWidth 0 canvas
      drawRows column row rest (i + 1) drawn

end Guarded

end Chip8
