import Chip8.Memory

/-!
# Guarded operations

Operations that are not defined for all operands, with the check of their operands made explicit: accesses of arrays
and slices, sums, differences and products of numbers that must fit a word, shifts, and division.  An operation whose
check fails ends in a `Mishap`.

Numbers are checked at sixteen bits, the least that a size or an address can have; what fits there fits everywhere.
-/

namespace Chip8

/-- What happens to an operation that is not defined for its operands. -/
inductive Mishap where
  /-- An element behind the end of an array. -/
  | index (place size : Nat)
  /-- A slice that ends before it starts, or behind the end of its array. -/
  | range (start stop size : Nat)
  /-- A slice written over one of a different length. -/
  | lengths (target source : Nat)
  /-- A sum or a product above the largest number, or a difference below zero. -/
  | overflow
  /-- A shift by the width of the word or more. -/
  | shift (amount width : Nat)
  | division
  /-- A condition that the program states and that does not hold. -/
  | assertion
  deriving DecidableEq, Repr

/-- A computation whose operations are checked. -/
abbrev Guarded (α : Type) := Except Mishap α

namespace Guarded

/-- The numbers of a word are those below. -/
def wordLimit : Nat := 65536

/-- The place as one of an array of `size` elements. -/
def index (place size : Nat) : Guarded (Fin size) :=
  if h : place < size then .ok ⟨place, h⟩ else .error (.index place size)

/-- The elements from `start` on and before `stop`. -/
def slice {α : Type} (values : List α) (start stop : Nat) : Guarded (List α) :=
  if start ≤ stop ∧ stop ≤ values.length then .ok ((values.drop start).take (stop - start))
  else .error (.range start stop values.length)

/-- The memory with the bytes in the slice from `start` to `stop`. -/
def copy (memory : Memory) (start stop : Nat) (bytes : List UInt8) : Guarded Memory := do
  let target ← slice memory.toList start stop
  if target.length = bytes.length then return memory.write start bytes
  else throw (.lengths target.length bytes.length)

def add (a b : Nat) : Guarded Nat := if a + b < wordLimit then .ok (a + b) else .error .overflow

def sub (a b : Nat) : Guarded Nat := if b ≤ a then .ok (a - b) else .error .overflow

def mul (a b : Nat) : Guarded Nat := if a * b < wordLimit then .ok (a * b) else .error .overflow

def div (a b : Nat) : Guarded Nat := if b = 0 then .error .division else .ok (a / b)

def mod (a b : Nat) : Guarded Nat := if b = 0 then .error .division else .ok (a % b)

def shiftLeft {width : Nat} (word : BitVec width) (amount : Nat) : Guarded (BitVec width) :=
  if amount < width then .ok (word <<< amount) else .error (.shift amount width)

def shiftRight {width : Nat} (word : BitVec width) (amount : Nat) : Guarded (BitVec width) :=
  if amount < width then .ok (word >>> amount) else .error (.shift amount width)

def ensure (condition : Prop) [Decidable condition] : Guarded Unit :=
  if condition then .ok () else .error .assertion

/-! ### When the checks succeed -/

@[simp] theorem ok_bind {α β : Type} (value : α) (f : α → Guarded β) : (Except.ok value >>= f) = f value := rfl

@[simp] theorem pure_eq_ok {α : Type} (value : α) : (pure value : Guarded α) = .ok value := rfl

theorem index_of_lt {place size : Nat} (h : place < size) : index place size = .ok ⟨place, h⟩ := by
  rw [index, dif_pos h]

@[simp] theorem index_val {size : Nat} (place : Fin size) : index place.val size = .ok place :=
  index_of_lt place.isLt

theorem slice_of_le {α : Type} {values : List α} {start stop : Nat} (h : start ≤ stop) (h' : stop ≤ values.length) :
    slice values start stop = .ok ((values.drop start).take (stop - start)) := by
  rw [slice, if_pos ⟨h, h'⟩]

/-- A copy succeeds if the slice begins and ends with the bytes. -/
theorem copy_of_le {memory : Memory} {start stop : Nat} {bytes : List UInt8} (h : start + bytes.length = stop)
    (h' : stop ≤ 4096) : copy memory start stop bytes = .ok (memory.write start bytes) := by
  have hl : memory.toList.length = 4096 := Vector.length_toList
  have ht : ((memory.toList.drop start).take (stop - start)).length = bytes.length := by
    rw [List.length_take, List.length_drop, hl]
    omega
  rw [copy, slice_of_le (by omega) (by omega), ok_bind, if_pos ht, pure_eq_ok]

theorem add_of_lt {a b : Nat} (h : a + b < 65536) : add a b = .ok (a + b) := by
  rw [add, if_pos (show _ < wordLimit from h)]

theorem sub_of_le {a b : Nat} (h : b ≤ a) : sub a b = .ok (a - b) := by
  rw [sub, if_pos h]

theorem mul_of_lt {a b : Nat} (h : a * b < 65536) : mul a b = .ok (a * b) := by
  rw [mul, if_pos (show _ < wordLimit from h)]

theorem div_of_ne {a b : Nat} (h : b ≠ 0) : div a b = .ok (a / b) := by
  rw [div, if_neg h]

theorem mod_of_ne {a b : Nat} (h : b ≠ 0) : mod a b = .ok (a % b) := by
  rw [mod, if_neg h]

theorem shiftLeft_of_lt {width amount : Nat} (h : amount < width) (word : BitVec width) :
    shiftLeft word amount = .ok (word <<< amount) := by
  rw [shiftLeft, if_pos h]

theorem shiftRight_of_lt {width amount : Nat} (h : amount < width) (word : BitVec width) :
    shiftRight word amount = .ok (word >>> amount) := by
  rw [shiftRight, if_pos h]

theorem ensure_of {condition : Prop} [Decidable condition] (h : condition) : ensure condition = .ok () := by
  rw [ensure, if_pos h]

end Guarded

end Chip8
