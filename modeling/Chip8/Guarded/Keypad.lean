import Chip8.Guarded.Basic
import Chip8.Keypad

/-!
# The keypad key by key

The operations of the keypad with the checks of `Guarded`: each key is looked up by its number, and a press is flagged
by a bit that is shifted to its place.  All keys at once are written by a loop over them.
-/

namespace Chip8.Guarded

def isDown (keys : KeySet) (key : Nat) : Guarded Bool := do
  let key ← index key 16
  return keys.has key

def isPressed (keypad : Keypad) (key : Nat) : Guarded Bool := isDown keypad.down (key &&& (Keypad.size - 1))

/-- Flags a key that is about to go down while a press is awaited. -/
def recordPress (keypad : Keypad) (key : Nat) (pressed : Bool) : Guarded Keypad :=
  match keypad.wait, pressed with
  | some flagged, true => do
    if ← isDown keypad.down key then return keypad
    else
      let bit ← shiftLeft (1 : KeySet) key
      return { keypad with wait := some (flagged ||| bit) }
  | _, _ => return keypad

def setKey (keypad : Keypad) (event : KeyEvent) : Guarded (Except Fault Keypad) := do
  if Keypad.size ≤ event.key then return .error event.fault
  else
    let recorded ← recordPress keypad event.key event.pressed
    let key ← index event.key 16
    return .ok { recorded with
      down := recorded.down.update key event.pressed
      last := some ⟨key, recorded.down.has key, event.pressed⟩ }

/-- Flags those of the keys that are about to go down. -/
def recordPresses (target : KeySet) : List Nat → Keypad → Guarded Keypad
  | [], keypad => return keypad
  | key :: rest, keypad => do
    let recorded ← recordPress keypad key (← isDown target key)
    recordPresses target rest recorded

/-- The first of the keys that is about to go down. -/
def firstPress? (down target : KeySet) : List Nat → Guarded (Option Key)
  | [] => return none
  | key :: rest => do
    if !(← isDown down key) && (← isDown target key) then return some (← index key 16)
    else firstPress? down target rest

def setAll (keypad : Keypad) (target : KeySet) : Guarded Keypad := do
  let recorded ← recordPresses target (List.range Keypad.size) keypad
  let first ← firstPress? recorded.down target (List.range Keypad.size)
  return { recorded with
    down := target
    last := (first.map fun key => ⟨key, false, true⟩).or recorded.last }

/-- Events whose key does not exist are passed over. -/
def heedAll : List KeyEvent → Keypad → Guarded Keypad
  | [], keypad => return keypad
  | event :: rest, keypad => do
    match ← setKey keypad event with
    | .ok changed => heedAll rest changed
    | .error _ => heedAll rest keypad

end Chip8.Guarded
