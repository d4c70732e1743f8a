import Chip8.Screen

/-!
# The framebuffer

The pixels of a screen as they are stored: a byte for each, row by row, `1` for a pixel that is on and `0` for one that
is off.  A pixel is turned by the exclusive or of its byte with `1`, and a sprite is drawn by a loop over its rows and
one over the bits of each row, which both end at the edge.
-/

namespace Chip8

structure Framebuffer where
  pixels : Vector UInt8 2048 := .replicate 2048 0
  deriving DecidableEq

namespace Framebuffer

/-- Where the byte of a pixel is. -/
def place (x : Fin 64) (y : Fin 32) : Fin 2048 := ⟨y.val * 64 + x.val, by omega⟩

/-- The byte of a pixel. -/
def pixel (framebuffer : Framebuffer) (x : Fin 64) (y : Fin 32) : UInt8 := framebuffer.pixels.get (place x y)

def clear (framebuffer : Framebuffer) : Framebuffer where
  pixels := framebuffer.pixels.map fun _ => 0

/-- The framebuffer with a pixel turned, and whether the pixel is off now. -/
def toggle (framebuffer : Framebuffer) (x : Fin 64) (y : Fin 32) : Bool × Framebuffer :=
  let value := framebuffer.pixel x y ^^^ 1
  (value == 0, { pixels := framebuffer.pixels.set (place x y).val value })

/-- A drawing in progress: the framebuffer, and whether a pixel went off so far. -/
structure Drawing where
  framebuffer : Framebuffer
  collided : Bool := false

/-- Draws `n` bits of a byte, bit `j` first. -/
def drawRow (byte : UInt8) (column : Nat) (row : Fin 32) : Nat → Nat → Drawing → Drawing
  | 0, _, drawing => drawing
  | n + 1, j, drawing =>
    if h : column + j < 64 then
      let mask := (0x80 : BitVec 8) >>> j
      if byte.toBitVec &&& mask = mask then
        let (off, framebuffer) := drawing.framebuffer.toggle ⟨column + j, h⟩ row
        drawRow byte column row n (j + 1) { framebuffer, collided := drawing.collided || off }
      else drawRow byte column row n (j + 1) drawing
    else drawing

/-- Draws the bytes as rows, of which the first has number `i`. -/
def drawRows (column row : Nat) : List UInt8 → Nat → Drawing → Drawing
  | [], _, drawing => drawing
  | byte :: rest, i, drawing =>
    if h : row + i < 32 then
      drawRows column row rest (i + 1) (drawRow byte column ⟨row + i, h⟩ Screen.spriteWidth 0 drawing)
    else drawing

end Framebuffer

end Chip8
