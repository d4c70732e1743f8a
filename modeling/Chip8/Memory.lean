import Chip8.Fault
import Chip8.Font

/-!
# Memory

4096 bytes.  The glyphs stand at their place in the reserved part, programs begin at `Memory.programStart`.  `read`
and `store` are the checked accesses of a run of bytes; they fail before anything changes.  `write` lays bytes down
from an address on and is described cell by cell in `getElem_write`.
-/

namespace Chip8

/-- The number of cells. -/
def Memory.size : Nat := 4096

abbrev Memory := Vector UInt8 4096

namespace Memory

def programStart : Nat := 0x200

/-- The longest program. -/
def programCapacity : Nat := size - programStart

/-- The bytes go to the cells from `start` on; what would fall behind the last cell is lost. -/
def write (memory : Memory) (start : Nat) : List UInt8 → Memory
  | [] => memory
  | byte :: rest => write (memory.setIfInBounds start byte) (start + 1) rest

/-- The memory of a machine without a program. -/
def initial : Memory := write (.replicate 4096 0) Font.location Font.bytes

/-- The bytes of `length` cells from `start` on. -/
def read (memory : Memory) (start length : Nat) : Except Fault (List UInt8) :=
  if h : start + length ≤ 4096 then .ok (List.ofFn fun k : Fin length => memory[start + k.val])
  else .error (.outOfBounds start)

/-- The memory with the bytes in the cells from `start` on. -/
def store (memory : Memory) (start : Nat) (bytes : List UInt8) : Except Fault Memory :=
  if start + bytes.length ≤ 4096 then .ok (memory.write start bytes) else .error (.outOfBounds start)

theorem getElem_write (memory : Memory) (start : Nat) (bytes : List UInt8) {a : Nat} (h : a < 4096) :
    (memory.write start bytes)[a] =
      if a < start then memory[a] else bytes.getD (a - start) memory[a] := by
  induction bytes generalizing memory start with
  | nil => simp [write]
  | cons byte rest ih =>
    rw [write, ih]
    simp only [Vector.getElem_setIfInBounds]
    by_cases h₁ : a < start
    · rw [if_pos h₁, if_pos (by omega), if_neg (by omega)]
    · by_cases h₂ : start = a
      · subst h₂
        simp
      · obtain ⟨k, hk⟩ : ∃ k, a - start = k + 1 := ⟨a - start - 1, by omega⟩
        rw [if_neg (by omega), if_neg h₁, if_neg h₂, hk, List.getD_cons_succ,
          show a - (start + 1) = k by omega]

/-- The cells from `start` on have the bytes in their order. -/
theorem getElem_write_add (memory : Memory) (start : Nat) (bytes : List UInt8) {i : Nat} (h : start + i < 4096) :
    (memory.write start bytes)[start + i] = bytes.getD i memory[start + i] := by
  rw [getElem_write, if_neg (by omega), Nat.add_sub_cancel_left]

theorem read_eq_ok {memory : Memory} {start length : Nat} (h : start + length ≤ 4096) :
    memory.read start length = .ok (List.ofFn fun k : Fin length => memory[start + k.val]) := by
  rw [read, dif_pos h]

theorem read_eq_error {memory : Memory} {start length : Nat} (h : 4096 < start + length) :
    memory.read start length = .error (.outOfBounds start) := by
  rw [read, dif_neg (by omega)]

theorem store_eq_ok {memory : Memory} {start : Nat} {bytes : List UInt8} (h : start + bytes.length ≤ 4096) :
    memory.store start bytes = .ok (memory.write start bytes) := by
  rw [store, if_pos h]

theorem store_eq_error {memory : Memory} {start : Nat} {bytes : List UInt8} (h : 4096 < start + bytes.length) :
    memory.store start bytes = .error (.outOfBounds start) := by
  rw [store, if_neg (by omega)]

end Memory

end Chip8
