/-!
# Timers

A timer counts down to zero, one unit a tick, and stays there.
-/

namespace Chip8

structure Timer where
  value : UInt8 := 0
  deriving DecidableEq, Repr

namespace Timer

/-- Ticks in a second. -/
def frequency : Nat := 60

/-- Whole milliseconds between two ticks. -/
def interval : Nat := 1000 / frequency

def isActive (timer : Timer) : Bool := 0 < timer.value

def tick (timer : Timer) : Timer := { value := .ofNat (timer.value.toNat - 1) }

@[simp] theorem toNat_tick (timer : Timer) : timer.tick.value.toNat = timer.value.toNat - 1 := by
  have h := timer.value.toNat_lt
  simp only [tick, UInt8.toNat_ofNat']
  omega

theorem isActive_iff {timer : Timer} : timer.isActive ↔ 0 < timer.value.toNat := by
  simp [isActive, UInt8.lt_iff_toNat_lt]

end Timer

end Chip8
