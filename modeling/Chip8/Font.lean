/-!
# Built-in glyphs

The sixteen hexadecimal digits as sprites of five rows, of which the high four bits are used.  They stand in memory
from `Font.location` on, digit after digit.
-/

namespace Chip8.Font

def location : Nat := 0x50

/-- The rows of one glyph. -/
def glyphSize : Nat := 5

def bytes : List UInt8 :=
  [0xF0, 0x90, 0x90, 0x90, 0xF0,
   0x20, 0x60, 0x20, 0x20, 0x70,
   0xF0, 0x10, 0xF0, 0x80, 0xF0,
   0xF0, 0x10, 0xF0, 0x10, 0xF0,
   0x90, 0x90, 0xF0, 0x10, 0x10,
   0xF0, 0x80, 0xF0, 0x10, 0xF0,
   0xF0, 0x80, 0xF0, 0x90, 0xF0,
   0xF0, 0x10, 0x20, 0x40, 0x40,
   0xF0, 0x90, 0xF0, 0x90, 0xF0,
   0xF0, 0x90, 0xF0, 0x10, 0xF0,
   0xF0, 0x90, 0xF0, 0x90, 0x90,
   0xE0, 0x90, 0xE0, 0x90, 0xE0,
   0xF0, 0x80, 0x80, 0x80, 0xF0,
   0xE0, 0x90, 0x90, 0x90, 0xE0,
   0xF0, 0x80, 0xF0, 0x80, 0xF0,
   0xF0, 0x80, 0xF0, 0x80, 0x80]

/-- The address of the glyph of a digit. -/
def address (digit : Fin 16) : UInt16 := .ofNat (location + glyphSize * digit.val)

theorem length_bytes : bytes.length = 16 * glyphSize := rfl

theorem toNat_address (digit : Fin 16) : (address digit).toNat = location + glyphSize * digit.val := by
  have h := digit.isLt
  simp only [address, location, glyphSize, UInt16.toNat_ofNat']
  omega

end Chip8.Font
