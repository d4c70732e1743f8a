import Chip8.Fault

/-!
# The keypad

Sixteen keys, written by the host and read by programs.  Besides the keys that are down, a keypad knows its last
transition and, while a key press is awaited, the keys that went down since the wait began.  A press is a key going
down; a key held down, or let go, is none.

`Keypad.set` writes one key and `Keypad.setAll` all of them.  `Keypad.takePress` asks for a press: the first call
starts a wait, and the wait ends with the lowest key pressed during it.
-/

namespace Chip8

abbrev Key := Fin 16

/-- A set of keys: bit `k` stands for key `k`. -/
abbrev KeySet := BitVec 16

namespace KeySet

def has (keys : KeySet) (key : Key) : Bool := keys[key.val]

/-- The set with one key put in or left out. -/
def update (keys : KeySet) (key : Key) (present : Bool) : KeySet :=
  if present then keys ||| .twoPow 16 key.val else keys &&& ~~~(.twoPow 16 key.val)

def least? (keys : KeySet) : Option Key := (List.finRange 16).find? keys.has

theorem has_update (keys : KeySet) (key other : Key) (present : Bool) :
    (keys.update key present).has other = if other = key then present else keys.has other := by
  have h : (other.val = key.val) = (other = key) := by rw [Fin.ext_iff]
  cases present <;> by_cases e : other = key <;>
    simp [has, update, BitVec.getElem_or, BitVec.getElem_and, BitVec.getElem_not, BitVec.getElem_twoPow, h, e]

theorem least?_eq_some_iff {keys : KeySet} {key : Key} :
    keys.least? = some key ↔ keys.has key ∧ ∀ other, other < key → keys.has other = false := by
  rw [least?, List.find?_eq_some_iff_getElem]
  simp only [List.length_finRange, List.getElem_finRange]
  constructor
  · rintro ⟨h, i, hi, e, hl⟩
    subst e
    refine ⟨h, fun other ho => ?_⟩
    simpa using hl other.val ho
  · rintro ⟨h, hl⟩
    refine ⟨h, key.val, key.isLt, rfl, fun j hj => ?_⟩
    simpa using hl ⟨j, by omega⟩ hj

theorem least?_eq_none_iff {keys : KeySet} : keys.least? = none ↔ ∀ key, keys.has key = false := by
  simp [least?, List.find?_eq_none]

theorem eq_of_has_eq {keys others : KeySet} (h : ∀ key, keys.has key = others.has key) : keys = others :=
  BitVec.eq_of_getElem_eq fun i hi => h ⟨i, hi⟩

end KeySet

/-- A key reported by the host as going down or up.  The key may be one that does not exist. -/
structure KeyEvent where
  key : Nat
  pressed : Bool
  deriving DecidableEq, Repr

namespace KeyEvent

def target? (event : KeyEvent) : Option Key :=
  if h : event.key < 16 then some ⟨event.key, h⟩ else none

/-- Why an event cannot be applied. -/
def fault (event : KeyEvent) : Fault := .invalidKey event.key

/-- The events whose key does not exist. -/
def invalid (events : List KeyEvent) : List KeyEvent := events.filter fun event => event.target?.isNone

def term (event : KeyEvent) : String :=
  Term.fields "KeyEvent" [("key", event.key.repr), ("pressed", Term.bool event.pressed)]

end KeyEvent

/-- A write to a key: its state before and after. -/
structure Transition where
  key : Key
  before : Bool
  after : Bool
  deriving DecidableEq, Repr

namespace Transition

def isPress (transition : Transition) : Bool := !transition.before && transition.after

def term (transition : Transition) : String :=
  Term.fields "Key" [("index", transition.key.val.repr), ("last", Term.bool transition.before),
    ("current", Term.bool transition.after)]

end Transition

structure Keypad where
  down : KeySet := 0
  last : Option Transition := none
  /-- The keys pressed since the wait began, or nothing while no press is awaited. -/
  wait : Option KeySet := none
  deriving DecidableEq, Repr

namespace Keypad

/-- The number of keys. -/
def size : Nat := 16

def awaiting (keypad : Keypad) : Bool := keypad.wait.isSome

/-- The presses of the present wait. -/
def flagged (keypad : Keypad) : KeySet := keypad.wait.getD 0

/-- Any number names a key by its last hexadecimal digit. -/
def isPressed (keypad : Keypad) (key : Nat) : Bool := keypad.down.has (.ofNat 16 key)

def set (keypad : Keypad) (key : Key) (pressed : Bool) : Keypad where
  down := keypad.down.update key pressed
  last := some ⟨key, keypad.down.has key, pressed⟩
  wait := keypad.wait.map fun flagged =>
    if pressed && !keypad.down.has key then flagged.update key true else flagged

/-- Writes all keys at once.  The last transition becomes the press of the lowest key that went down, if one did. -/
def setAll (keypad : Keypad) (target : KeySet) : Keypad :=
  let pressed := target &&& ~~~keypad.down
  { down := target
    last := (pressed.least?.map fun key => ⟨key, false, true⟩).or keypad.last
    wait := keypad.wait.map (· ||| pressed) }

def apply (keypad : Keypad) (event : KeyEvent) : Except Fault Keypad :=
  match event.target? with
  | some key => .ok (keypad.set key event.pressed)
  | none => .error event.fault

/-- An event whose key does not exist is passed over. -/
def heed (keypad : Keypad) (event : KeyEvent) : Keypad :=
  match keypad.apply event with
  | .ok changed => changed
  | .error _ => keypad

def heedAll (keypad : Keypad) (events : List KeyEvent) : Keypad := events.foldl heed keypad

/-- The press that ends the wait, and the keypad afterwards. -/
def takePress (keypad : Keypad) : Option Key × Keypad :=
  match keypad.wait with
  | none => (none, { keypad with wait := some 0 })
  | some flagged =>
    match flagged.least? with
    | none => (none, keypad)
    | some key => (some key, { keypad with wait := none })

def term (keypad : Keypad) : String :=
  Term.fields "Keyboard"
    [("keys", Term.list ((List.finRange 16).map fun key => Term.bool (keypad.down.has key))),
      ("last", Term.option (keypad.last.map Transition.term)),
      ("presses", keypad.flagged.toNat.repr),
      ("awaiting", Term.bool keypad.awaiting)]

theorem heed_of_target? {event : KeyEvent} {key : Key} (h : event.target? = some key) (keypad : Keypad) :
    keypad.heed event = keypad.set key event.pressed := by
  simp [heed, apply, h]

theorem heed_of_target?_eq_none {event : KeyEvent} (h : event.target? = none) (keypad : Keypad) :
    keypad.heed event = keypad := by
  simp [heed, apply, h]

theorem heedAll_append (keypad : Keypad) (events others : List KeyEvent) :
    keypad.heedAll (events ++ others) = (keypad.heedAll events).heedAll others :=
  List.foldl_append

end Keypad

end Chip8
