import Chip8.ByteSupply

/-!
# Generators of random bytes

A generator has a state, and makes a byte and its next state of it.  Nothing else about the states can be observed, so
a generator is known by the bytes that it is going to hand out (`Generator.ofState`).  A supply of bytes is a generator
whose states are the supplies.
-/

namespace Chip8

structure Generator where
  /-- The bytes that are still to come, the next one at `0`. -/
  byte : Nat → UInt8

namespace Generator

/-- The byte that is next. -/
def peek (generator : Generator) : UInt8 := generator.byte 0

/-- The generator after one byte was taken. -/
def rest (generator : Generator) : Generator where
  byte k := generator.byte (k + 1)

section State

variable {σ : Type} (next : σ → UInt8 × σ)

/-- The bytes that come out of a state and those that follow it. -/
def bytesFrom : σ → Nat → UInt8
  | state, 0 => (next state).1
  | state, k + 1 => bytesFrom (next state).2 k

def ofState (state : σ) : Generator where
  byte := bytesFrom next state

theorem peek_ofState (state : σ) : (ofState next state).peek = (next state).1 := rfl

theorem rest_ofState (state : σ) : (ofState next state).rest = ofState next (next state).2 := rfl

end State

/-- A supply of the first `n` bytes. -/
def supply (generator : Generator) (n : Nat) : ByteSupply where
  bytes := .ofFn fun k : Fin n => generator.byte k.val

end Generator

def ByteSupply.generator (supply : ByteSupply) : Generator :=
  .ofState (fun supply => (supply.peek, supply.rest)) supply

theorem ByteSupply.rest_generator (supply : ByteSupply) : supply.generator.rest = supply.rest.generator := rfl

/-- A supply goes through its bytes in circles. -/
theorem ByteSupply.byte_generator (supply : ByteSupply) (k : Nat) :
    supply.generator.byte k = supply.bytes.getD ((supply.position + k) % supply.bytes.size) 0 := by
  induction k generalizing supply with
  | zero => rfl
  | succ k ih =>
    have hrest : supply.generator.byte (k + 1) = supply.rest.generator.byte k :=
      congrArg (·.byte k) supply.rest_generator
    rw [hrest, ih, rest, Nat.add_assoc, Nat.add_comm 1 k]

/-- The supply of the first bytes hands them out as the generator does. -/
theorem Generator.byte_generator_supply (generator : Generator) {k n : Nat} (h : k < n) :
    (generator.supply n).generator.byte k = generator.byte k := by
  rw [ByteSupply.byte_generator]
  simp [supply, Nat.mod_eq_of_lt h, Array.getD_eq_getD_getElem?, h]

end Chip8
