import Chip8.Console.Keyboard
import Chip8.Proofs.Safety

/-!
# The keypad in the keyboard

`Keyboard.keypad` is the keypad that a keyboard stands for: presses count as long as one is awaited.  Every operation
on the keyboard is that on the keypad.  The invariant is `Keyboard.Orderly`: the last write was to a key that exists,
and outside of a wait no press is flagged.
-/

namespace Chip8

namespace KeySet

def ofKeys (keys : Vector Bool 16) : KeySet := (BitVec.ofBoolListLE keys.toList).cast Vector.length_toList

@[simp] theorem has_ofKeys (keys : Vector Bool 16) (key : Key) : (ofKeys keys).has key = keys.get key := by
  have hget : keys.get key = keys[key.val] := rfl
  rw [hget, has, ofKeys, ← BitVec.getLsbD_eq_getElem, BitVec.getLsbD_cast, BitVec.getLsbD_ofBoolListLE,
    List.getD_eq_getElem?_getD, Vector.getElem?_toList, Vector.getElem?_eq_getElem key.isLt, Option.getD_some]

theorem ofKeys_ofFn_has (keys : KeySet) : ofKeys (.ofFn keys.has) = keys := by
  apply eq_of_has_eq
  intro key
  rw [has_ofKeys]
  exact Vector.getElem_ofFn key.isLt

theorem ofKeys_set (keys : Vector Bool 16) {key : Nat} (h : key < 16) (pressed : Bool) :
    ofKeys (keys.set key pressed h) = (ofKeys keys).update ⟨key, h⟩ pressed := by
  apply eq_of_has_eq
  intro other
  have hset : (keys.set key pressed h).get other = _ := Vector.getElem_set h other.isLt
  rw [has_ofKeys, hset, has_update, has_ofKeys]
  simp only [Fin.ext_iff, eq_comm]
  rfl

end KeySet

def KeyRecord.transition (record : KeyRecord) : Transition where
  key := .ofNat 16 record.index
  before := record.last
  after := record.current

namespace Keyboard

/-- The keypad that the fields stand for. -/
def keypad (keyboard : Keyboard) : Keypad where
  down := .ofKeys keyboard.keys
  last := keyboard.last.map KeyRecord.transition
  wait := if keyboard.awaiting then some keyboard.presses else none

structure Orderly (keyboard : Keyboard) : Prop where
  last_lt : ∀ record, keyboard.last = some record → record.index < 16
  presses_eq_zero : keyboard.awaiting = false → keyboard.presses = 0

theorem keypad_new : keypad {} = {} := rfl

theorem reset_eq_new (keyboard : Keyboard) : keyboard.reset = {} := rfl

theorem orderly_new : Orderly {} where
  last_lt := fun _ h => by cases h
  presses_eq_zero := fun _ => rfl

variable {keyboard : Keyboard}

/-! ### One key -/

theorem recordPress_eq (keyboard : Keyboard) (key : Key) (pressed : Bool) :
    keyboard.recordPress key pressed = { keyboard with presses := (keyboard.recordPress key pressed).presses } := by
  unfold recordPress
  split <;> rfl

theorem Orderly.recordPress (h : keyboard.Orderly) (key : Key) (pressed : Bool) :
    (keyboard.recordPress key pressed).Orderly := by
  unfold Keyboard.recordPress
  split
  · rename_i hflag
    have hawaiting : keyboard.awaiting = true := by
      simp only [Bool.and_eq_true] at hflag
      exact hflag.1.1
    exact ⟨h.last_lt, fun hno => absurd hawaiting (by rw [hno]; exact Bool.false_ne_true)⟩
  · exact h

theorem keypad_recordPress (keyboard : Keyboard) (key : Key) (pressed : Bool) :
    (keyboard.recordPress key pressed).keypad =
      { keyboard.keypad with wait := (keyboard.keypad.set key pressed).wait } := by
  have hdown : keyboard.keypad.down.has key = keyboard.keys.get key := KeySet.has_ofKeys _ key
  simp only [recordPress, Keypad.set, hdown]
  cases ha : keyboard.awaiting <;> cases pressed <;> cases keyboard.keys.get key <;> simp [keypad, ha]
  rfl

theorem keypad_setKey (keyboard : Keyboard) (event : KeyEvent) :
    (keyboard.setKey event).map keypad = keyboard.keypad.apply event := by
  by_cases h : event.key < 16
  · let key : Key := ⟨event.key, h⟩
    have ht : event.target? = some key := dif_pos h
    have hkey : Fin.ofNat 16 event.key = key := Fin.ext (Nat.mod_eq_of_lt h)
    have hdown : keyboard.keypad.down.has key = keyboard.keys[key.val] := KeySet.has_ofKeys _ key
    have hkeys : (keyboard.recordPress key event.pressed).keys = keyboard.keys := by rw [recordPress_eq]
    have hkeypad := keyboard.keypad_recordPress key event.pressed
    rw [setKey, dif_pos h, Keypad.apply, ht]
    refine congrArg Except.ok ?_
    show ({ (keyboard.recordPress key event.pressed).keypad with
            down := .ofKeys ((keyboard.recordPress key event.pressed).keys.set key.val event.pressed)
            last := some ⟨.ofNat 16 event.key, (keyboard.recordPress key event.pressed).keys[key.val], event.pressed⟩ }
            : Keypad) = _
    rw [hkeypad, hkeys, hkey, KeySet.ofKeys_set, ← hdown]
    rfl
  · have ht : event.target? = none := dif_neg h
    rw [setKey, dif_neg h, Keypad.apply, ht]
    rfl

theorem Orderly.setKey (h : keyboard.Orderly) {event : KeyEvent} {changed : Keyboard}
    (hs : keyboard.setKey event = .ok changed) : changed.Orderly := by
  rw [Keyboard.setKey] at hs
  split at hs
  · rename_i hlt
    cases hs
    exact ⟨fun record hr => by cases hr; exact hlt, (h.recordPress _ _).presses_eq_zero⟩
  · cases hs

/-- Events are heeded as by the keypad. -/
theorem heedAll_keypad (h : keyboard.Orderly) (events : List KeyEvent) :
    (keyboard.heedAll events).keypad = keyboard.keypad.heedAll events ∧ (keyboard.heedAll events).Orderly := by
  induction events generalizing keyboard with
  | nil => exact ⟨rfl, h⟩
  | cons event rest ih =>
    have hset := keyboard.keypad_setKey event
    have hcons : keyboard.keypad.heedAll (event :: rest) = (keyboard.keypad.heed event).heedAll rest := rfl
    rw [heedAll, hcons, Keypad.heed, ← hset]
    cases hs : keyboard.setKey event with
    | ok changed => exact ih (h.setKey hs)
    | error fault => exact ih h

/-- Any number names the same key. -/
theorem isPressed_keypad (keyboard : Keyboard) (key : Nat) :
    keyboard.keypad.isPressed key = keyboard.isPressed key := by
  have hmask : key &&& (Keypad.size - 1) = (Fin.ofNat 16 key).val := Nat.and_two_pow_sub_one_eq_mod key 4
  rw [Keypad.isPressed, isPressed, keypad, KeySet.has_ofKeys]
  simp only [hmask]

/-! ### All keys -/

theorem recordPresses_keypad (h : keyboard.Orderly) (target : Vector Bool 16) (keys : List Key) :
    Guarded.recordPresses (.ofKeys target) (keys.map Fin.val) keyboard.keypad =
        .ok (recordPresses target keys keyboard).keypad ∧
      (recordPresses target keys keyboard).keys = keyboard.keys ∧ (recordPresses target keys keyboard).Orderly := by
  induction keys generalizing keyboard with
  | nil => exact ⟨rfl, rfl, h⟩
  | cons key rest ih =>
    obtain ⟨hk, hkeys, ho⟩ := ih (h.recordPress key target[key.val])
    refine ⟨?_, ?_, ho⟩
    · rw [List.map_cons, Guarded.recordPresses, Guarded.isDown_val, Guarded.ok_bind, Guarded.recordPress_val,
        Guarded.ok_bind, KeySet.has_ofKeys, ← keypad_recordPress]
      exact hk
    · refine hkeys.trans ?_
      rw [recordPress_eq]

theorem setAll_keypad (h : keyboard.Orderly) (target : Vector Bool 16) :
    (keyboard.setAll target).keypad = keyboard.keypad.setAll (.ofKeys target) ∧ (keyboard.setAll target).Orderly := by
  obtain ⟨hk, hkeys, ho⟩ := recordPresses_keypad h target (List.finRange 16)
  have hrange : List.range Keypad.size = (List.finRange 16).map Fin.val := rfl
  have hguarded := Guarded.setAll_eq keyboard.keypad (.ofKeys target)
  rw [Guarded.setAll, hrange, hk, Guarded.ok_bind, Guarded.firstPress?_map_val, Guarded.ok_bind] at hguarded
  rw [setAll]
  generalize recordPresses target (List.finRange 16) keyboard = recorded at ho hguarded ⊢
  have hpressed : (KeySet.ofKeys target &&& ~~~recorded.keypad.down).has =
      fun key => !recorded.keys.get key && target.get key := by
    funext key
    rw [KeySet.has_and_not, KeySet.has_ofKeys, keypad, KeySet.has_ofKeys, Bool.and_comm]
  rw [hpressed] at hguarded
  generalize (List.finRange 16).find? _ = first at hguarded ⊢
  constructor
  · rw [← Except.ok.inj hguarded]
    have hlast (key : Key) : KeyRecord.transition ⟨key.val, false, true⟩ = ⟨key, false, true⟩ := by
      rw [KeyRecord.transition, Fin.ofNat_val_eq_self]
    simp only [keypad, Option.map_or, Option.map_map, Function.comp_def, hlast]
  · refine ⟨fun record hr => ?_, ho.presses_eq_zero⟩
    rcases Option.or_eq_some_iff.1 hr with hfirst | ⟨-, hlast⟩
    · obtain ⟨key, -, rfl⟩ := Option.map_eq_some_iff.1 hfirst
      exact key.isLt
    · exact ho.last_lt record hlast

/-! ### Taking a press -/

/-- The number of trailing zeros of a word that is not zero is its least key. -/
theorem least?_eq_ctz {presses : KeySet} (h : presses ≠ 0) :
    presses.ctz.toNat < 16 ∧ presses.least? = some (.ofNat 16 presses.ctz.toNat) := by
  have hbit := BitVec.getLsbD_true_ctz_of_ne_zero h
  have hlt : presses.ctz.toNat < 16 := BitVec.lt_of_getLsbD hbit
  have hkey : (Fin.ofNat 16 presses.ctz.toNat).val = presses.ctz.toNat := Nat.mod_eq_of_lt hlt
  refine ⟨hlt, KeySet.least?_eq_some_iff.2 ⟨?_, fun other ho => ?_⟩⟩
  · rw [KeySet.has, ← BitVec.getLsbD_eq_getElem, hkey]
    exact hbit
  · rw [KeySet.has, ← BitVec.getLsbD_eq_getElem]
    exact BitVec.getLsbD_false_of_lt_ctz (by rwa [Fin.lt_def, hkey] at ho)

theorem takePress_keypad (h : keyboard.Orderly) :
    keyboard.keypad.takePress = (keyboard.takePress.1.map (.ofNat 16), keyboard.takePress.2.keypad) ∧
      (∀ key, keyboard.takePress.1 = some key → key < 16) ∧ keyboard.takePress.2.Orderly := by
  cases ha : keyboard.awaiting with
  | false =>
    have hwait : keyboard.keypad.wait = none := if_neg (by rw [ha]; exact Bool.false_ne_true)
    have htake : keyboard.takePress = (none, { keyboard with awaiting := true, presses := 0 }) :=
      if_pos (by rw [ha]; rfl)
    rw [Keypad.takePress_of_wait_eq_none hwait, htake]
    exact ⟨rfl, fun _ hk => (by cases hk), h.last_lt, fun hno => (by cases hno)⟩
  | true =>
    have hwait : keyboard.keypad.wait = some keyboard.presses := if_pos ha
    by_cases hp : keyboard.presses = 0
    · have htake : keyboard.takePress = (none, keyboard) := by rw [takePress, if_neg (by simp [ha]), if_pos hp]
      rw [hp] at hwait
      rw [Keypad.takePress_of_wait_eq_zero hwait, htake]
      exact ⟨rfl, fun _ hk => (by cases hk), h⟩
    · obtain ⟨hlt, hleast⟩ := least?_eq_ctz hp
      have htake : keyboard.takePress =
          (some keyboard.presses.ctz.toNat, { keyboard with awaiting := false, presses := 0 }) := by
        rw [takePress, if_neg (by simp [ha]), if_neg hp]
      rw [Keypad.takePress_of_least? hwait hleast, htake]
      exact ⟨rfl, fun key hk => (by cases hk; exact hlt), h.last_lt, fun _ => rfl⟩

end Keyboard

end Chip8
