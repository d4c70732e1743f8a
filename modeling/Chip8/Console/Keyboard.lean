import Chip8.Keypad

/-!
# The keyboard

The keys as they are stored: a truth value for each, the last write to one of them, a word with a bit for each key that
was pressed during a wait, and whether there is a wait.  The bits have a meaning while a press is awaited only; what
they are at other times is up to the operations.
-/

namespace Chip8

/-- The last write to the key of a number. -/
structure KeyRecord where
  index : Nat
  last : Bool
  current : Bool
  deriving DecidableEq, Repr

structure Keyboard where
  keys : Vector Bool 16 := .replicate 16 false
  last : Option KeyRecord := none
  presses : BitVec 16 := 0
  awaiting : Bool := false
  deriving DecidableEq

namespace Keyboard

def reset (keyboard : Keyboard) : Keyboard :=
  { keyboard with keys := .replicate 16 false, last := none, presses := 0, awaiting := false }

/-- Flags a key that is about to go down while a press is awaited. -/
def recordPress (keyboard : Keyboard) (key : Key) (pressed : Bool) : Keyboard :=
  if keyboard.awaiting && pressed && !keyboard.keys.get key then
    { keyboard with presses := keyboard.presses ||| 1 <<< key.val }
  else keyboard

def setKey (keyboard : Keyboard) (event : KeyEvent) : Except Fault Keyboard :=
  if h : event.key < 16 then
    let recorded := keyboard.recordPress ⟨event.key, h⟩ event.pressed
    .ok { recorded with
      keys := recorded.keys.set event.key event.pressed
      last := some ⟨event.key, recorded.keys[event.key], event.pressed⟩ }
  else .error event.fault

/-- Flags those of the keys that are about to go down. -/
def recordPresses (target : Vector Bool 16) (keys : List Key) (keyboard : Keyboard) : Keyboard :=
  keys.foldl (fun keyboard key => keyboard.recordPress key (target.get key)) keyboard

def setAll (keyboard : Keyboard) (target : Vector Bool 16) : Keyboard :=
  let recorded := recordPresses target (List.finRange 16) keyboard
  let first := (List.finRange 16).find? fun key => !recorded.keys.get key && target.get key
  { recorded with
    keys := target
    last := (first.map fun key => ⟨key.val, false, true⟩).or recorded.last }

/-- Events whose key does not exist are passed over. -/
def heedAll (keyboard : Keyboard) : List KeyEvent → Keyboard
  | [] => keyboard
  | event :: rest =>
    match keyboard.setKey event with
    | .ok changed => changed.heedAll rest
    | .error _ => keyboard.heedAll rest

/-- Any number names a key by its last hexadecimal digit. -/
def isPressed (keyboard : Keyboard) (key : Nat) : Bool :=
  keyboard.keys.get ⟨key &&& (Keypad.size - 1), Nat.lt_succ_of_le Nat.and_le_right⟩

/-- The press that ends the wait, and the keyboard afterwards. -/
def takePress (keyboard : Keyboard) : Option Nat × Keyboard :=
  if !keyboard.awaiting then (none, { keyboard with awaiting := true, presses := 0 })
  else if keyboard.presses = 0 then (none, keyboard)
  else (some keyboard.presses.ctz.toNat, { keyboard with awaiting := false, presses := 0 })

end Keyboard

end Chip8
