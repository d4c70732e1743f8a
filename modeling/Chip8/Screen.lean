/-!
# The screen

Black and white pixels, 64 in a row and 32 rows.  A row is a word whose highest bit is its leftmost pixel.

A sprite is eight pixels wide and has one byte a row.  `Screen.sprite` shows it on an otherwise blank screen, cut off
at the right and the lower edge; drawing is the exclusive or with that screen, and sprites collide with the pixels
that are on in both.
-/

namespace Chip8

structure Screen where
  rows : Vector (BitVec 64) 32 := .replicate 32 0
  deriving DecidableEq

namespace Screen

def width : Nat := 64

def height : Nat := 32

instance neZero_width : @NeZero Nat Zero.ofOfNat0 64 := ⟨by decide⟩

instance neZero_height : @NeZero Nat Zero.ofOfNat0 32 := ⟨by decide⟩

def resolution : Nat := width * height

def spriteWidth : Nat := 8

def blank : Screen := {}

def isBlank (screen : Screen) : Bool := screen = blank

def pixel (screen : Screen) (x : Fin 64) (y : Fin 32) : Bool := screen.rows[y.val].getMsbD x.val

/-- The pixel at any coordinates; there is none outside the screen. -/
def pixel? (screen : Screen) (x y : Nat) : Option Bool :=
  if h : x < 64 ∧ y < 32 then some (screen.pixel ⟨x, h.1⟩ ⟨y, h.2⟩) else none

/-- The pixels as bytes, row by row. -/
def bytes (screen : Screen) : List UInt8 :=
  screen.rows.toList.flatMap fun row => (List.range width).map fun x => (row.getMsbD x).toUInt8

/-- The row that shows a byte from column `x` on. -/
def spriteRow (byte : UInt8) (x : Fin 64) : BitVec 64 := (byte.toBitVec.setWidth 64 <<< 56) >>> x.val

/-- The screen that shows a sprite with its upper left corner at `x` and `y`. -/
def sprite (x : Fin 64) (y : Fin 32) (bytes : List UInt8) : Screen where
  rows := .ofFn fun row => if row < y then 0 else spriteRow (bytes.getD (row.val - y.val) 0) x

/-- The pixels that are on in one of two screens but not in both. -/
def xor (screen other : Screen) : Screen where
  rows := .zipWith (· ^^^ ·) screen.rows other.rows

/-- The pixels that are on in both of two screens. -/
def inter (screen other : Screen) : Screen where
  rows := .zipWith (· &&& ·) screen.rows other.rows

def overlaps (screen other : Screen) : Bool := !(screen.inter other).isBlank

def rowText (row : BitVec 64) : String :=
  String.ofList ((List.range width).map fun x => if row.getMsbD x then '#' else '.')

/-- A line for each row, with `#` for a pixel that is on. -/
def text (screen : Screen) : String := String.join (screen.rows.toList.map fun row => rowText row ++ "\n")

theorem ext_pixel {screen other : Screen} (h : ∀ x y, screen.pixel x y = other.pixel x y) : screen = other := by
  cases screen
  cases other
  congr 1
  apply Vector.ext
  intro y hy
  apply BitVec.eq_of_getMsbD_eq
  intro x hx
  exact h ⟨x, hx⟩ ⟨y, hy⟩

@[simp] theorem pixel_blank (x : Fin 64) (y : Fin 32) : blank.pixel x y = false := by
  simp [pixel, blank]

@[simp] theorem pixel_xor (screen other : Screen) (x : Fin 64) (y : Fin 32) :
    (screen.xor other).pixel x y = (screen.pixel x y ^^ other.pixel x y) := by
  simp [pixel, xor]

@[simp] theorem pixel_inter (screen other : Screen) (x : Fin 64) (y : Fin 32) :
    (screen.inter other).pixel x y = (screen.pixel x y && other.pixel x y) := by
  simp [pixel, inter]

theorem getMsbD_spriteRow (byte : UInt8) (x column : Fin 64) :
    (spriteRow byte x).getMsbD column.val =
      (decide (x ≤ column) && byte.toBitVec.getMsbD (column.val - x.val)) := by
  have h := column.isLt
  simp only [spriteRow, BitVec.getMsbD_ushiftRight, BitVec.getMsbD_shiftLeft, BitVec.getMsbD_setWidth,
    Fin.le_def]
  by_cases hx : column.val < x.val
  · have hx' : ¬x.val ≤ column.val := by omega
    simp [hx, hx']
  · have hx' : x.val ≤ column.val := by omega
    have e : column.val - x.val + 56 + 8 - 64 = column.val - x.val := by omega
    simp [h, hx, hx', e]

/-- A pixel shows the bit of the sprite at its distance from the corner; behind the sprite there are none. -/
theorem pixel_sprite (x column : Fin 64) (y row : Fin 32) (bytes : List UInt8) :
    (sprite x y bytes).pixel column row =
      (decide (y ≤ row) && decide (x ≤ column) &&
        (bytes.getD (row.val - y.val) 0).toBitVec.getMsbD (column.val - x.val)) := by
  simp only [pixel, sprite, Vector.getElem_ofFn]
  split
  · rename_i h
    have h' : ¬y ≤ row := Nat.not_le.2 h
    simp [h']
  · rename_i h
    have h' : y ≤ row := Nat.not_lt.1 h
    rw [getMsbD_spriteRow, decide_eq_true h', Bool.true_and]

theorem isBlank_iff {screen : Screen} : screen.isBlank ↔ ∀ x y, screen.pixel x y = false := by
  rw [isBlank, decide_eq_true_iff]
  constructor
  · rintro rfl x y
    exact pixel_blank x y
  · exact fun h => ext_pixel fun x y => by rw [h, pixel_blank]

end Screen

end Chip8
