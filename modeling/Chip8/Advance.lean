import Chip8.Text.Term

/-!
# Movements of the program counter

An instruction runs while the counter already stands behind it, and asks for one more movement.  Whatever the
movement, the counter ends among the 4096 addresses: sums are taken in sixteen bits and reduced to twelve.
-/

namespace Chip8

inductive Advance where
  | next
  | skip
  /-- Back to the instruction that is running. -/
  | hold
  | jump (target : UInt16)
  deriving DecidableEq, Repr

namespace Advance

/-- The movement of a conditional skip. -/
def skipIf (condition : Bool) : Advance := if condition then skip else next

def apply : Advance → UInt16 → UInt16
  | next, counter => counter % 4096
  | skip, counter => (counter + 2) % 4096
  | hold, counter => (counter - 2) % 4096
  | jump target, _ => target % 4096

def text : Advance → String
  | next => "Next"
  | skip => "Skip"
  | hold => "Hold"
  | jump target => Term.applied "Jump" target.toNat.repr

theorem apply_lt (advance : Advance) (counter : UInt16) : (advance.apply counter).toNat < 4096 := by
  cases advance <;> simp only [apply, UInt16.toNat_mod] <;> exact Nat.mod_lt _ (by decide)

theorem toNat_apply_skip (counter : UInt16) : (skip.apply counter).toNat = (counter.toNat + 2) % 4096 := by
  simp only [apply, UInt16.toNat_mod, UInt16.toNat_add, UInt16.reduceToNat]
  omega

theorem apply_next_apply_skip (counter : UInt16) : next.apply (skip.apply counter) = skip.apply counter := by
  apply UInt16.toNat_inj.1
  simp only [apply, UInt16.toNat_mod, UInt16.reduceToNat]
  omega

/-- Holding undoes the step behind the instruction. -/
theorem apply_hold_apply_skip (counter : UInt16) : hold.apply (skip.apply counter) = counter % 4096 := by
  apply UInt16.toNat_inj.1
  have h := counter.toNat_lt
  simp only [apply, UInt16.toNat_mod, UInt16.toNat_sub, UInt16.toNat_add, UInt16.reduceToNat]
  omega

end Advance

end Chip8
