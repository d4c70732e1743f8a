/-!
# Opcodes

An opcode is a word of two bytes, the high byte first.  Its four hexadecimal digits are named after their places:
the family, `x`, `y` and `n`; the last two digits together are the byte `nn`, the last three the address `nnn`.
-/

namespace Chip8

/-- The encoded form of an instruction. -/
abbrev Opcode := UInt16

/-- The place of one of the sixteen data registers. -/
abbrev Register := Fin 16

/-- A place in memory, as an instruction can name it. -/
abbrev Address := Fin 4096

-- the zero is the one of the numerals, whatever other zeros the imports know
instance neZero_sixteen : @NeZero Nat Zero.ofOfNat0 16 := ⟨by decide⟩

instance neZero_memory : @NeZero Nat Zero.ofOfNat0 4096 := ⟨by decide⟩

namespace Opcode

/-- The number of bytes of an opcode. -/
def size : Nat := 2

def ofBytes (high low : UInt8) : Opcode := .ofNat (high.toNat * 256 + low.toNat)

def highByte (opcode : Opcode) : UInt8 := .ofNat (opcode.toNat / 256)

def lowByte (opcode : Opcode) : UInt8 := .ofNat opcode.toNat

/-- The two bytes in memory order. -/
def bytes (opcode : Opcode) : List UInt8 := [opcode.highByte, opcode.lowByte]

def family (opcode : Opcode) : Fin 16 := .ofNat 16 (opcode.toNat / 4096)

def x (opcode : Opcode) : Register := .ofNat 16 (opcode.toNat / 256)

def y (opcode : Opcode) : Register := .ofNat 16 (opcode.toNat / 16)

def n (opcode : Opcode) : Fin 16 := .ofNat 16 opcode.toNat

def nn (opcode : Opcode) : UInt8 := opcode.lowByte

def nnn (opcode : Opcode) : Address := .ofNat 4096 opcode.toNat

/-- The opcode of a family with an address. -/
def ofAddress (family : Nat) (nnn : Address) : Opcode := .ofNat (family * 4096 + nnn.val)

/-- The opcode of a family with a register and a byte. -/
def ofByte (family : Nat) (x : Register) (nn : Nat) : Opcode := .ofNat (family * 4096 + x.val * 256 + nn)

/-- The opcode of a family with two registers and a last digit. -/
def ofPair (family : Nat) (x y : Register) (n : Nat) : Opcode :=
  .ofNat (family * 4096 + x.val * 256 + y.val * 16 + n)

/-- The opcode whose first byte stands at `pointer`; there is none unless its second byte exists too. -/
def at? (bytes : Array UInt8) (pointer : Nat) : Option Opcode :=
  if h : pointer + 1 < bytes.size then some (ofBytes bytes[pointer] bytes[pointer + 1]) else none

theorem toNat_ofBytes (high low : UInt8) : (ofBytes high low).toNat = high.toNat * 256 + low.toNat := by
  have h₁ := high.toNat_lt
  have h₂ := low.toNat_lt
  simp only [ofBytes, UInt16.toNat_ofNat']
  omega

theorem toNat_highByte (opcode : Opcode) : opcode.highByte.toNat = opcode.toNat / 256 := by
  have h := opcode.toNat_lt
  simp only [highByte, UInt8.toNat_ofNat']
  omega

theorem toNat_lowByte (opcode : Opcode) : opcode.lowByte.toNat = opcode.toNat % 256 := by
  simp [lowByte]

@[simp] theorem ofBytes_highByte_lowByte (opcode : Opcode) :
    ofBytes opcode.highByte opcode.lowByte = opcode := by
  apply UInt16.toNat_inj.1
  rw [toNat_ofBytes, toNat_highByte, toNat_lowByte]
  omega

@[simp] theorem highByte_ofBytes (high low : UInt8) : (ofBytes high low).highByte = high := by
  apply UInt8.toNat_inj.1
  have h := low.toNat_lt
  rw [toNat_highByte, toNat_ofBytes]
  omega

@[simp] theorem lowByte_ofBytes (high low : UInt8) : (ofBytes high low).lowByte = low := by
  apply UInt8.toNat_inj.1
  have h := low.toNat_lt
  rw [toNat_lowByte, toNat_ofBytes]
  omega

theorem toNat_ofAddress {family : Nat} (h : family < 16) (nnn : Address) :
    (ofAddress family nnn).toNat = family * 4096 + nnn.val := by
  have h₁ := nnn.isLt
  simp only [ofAddress, UInt16.toNat_ofNat']
  omega

theorem toNat_ofByte {family nn : Nat} (h : family < 16) (h' : nn < 256) (x : Register) :
    (ofByte family x nn).toNat = family * 4096 + x.val * 256 + nn := by
  have h₁ := x.isLt
  simp only [ofByte, UInt16.toNat_ofNat']
  omega

theorem toNat_ofPair {family n : Nat} (h : family < 16) (h' : n < 16) (x y : Register) :
    (ofPair family x y n).toNat = family * 4096 + x.val * 256 + y.val * 16 + n := by
  have h₁ := x.isLt
  have h₂ := y.isLt
  simp only [ofPair, UInt16.toNat_ofNat']
  omega

theorem at?_eq_some {bytes : Array UInt8} {pointer : Nat} (h : pointer + 1 < bytes.size) :
    at? bytes pointer = some (ofBytes bytes[pointer] bytes[pointer + 1]) := by
  rw [at?, dif_pos h]

theorem isSome_at?_iff {bytes : Array UInt8} {pointer : Nat} :
    (at? bytes pointer).isSome ↔ pointer + 1 < bytes.size := by
  unfold at?
  split <;> simp [*]

end Opcode

end Chip8
