import Chip8.Keypad

/-!
# Presses

Which keys go down while the keys take one state after another (`KeySet.pressedAlong`), and what a keypad that awaits
a press remembers of it: the events that it heeds add exactly the keys that they make go down (`Keypad.wait_heedAll`).
`Keypad.takePress` starts a wait without a press, goes on with it while there is none, and ends it with the lowest one.
-/

namespace Chip8

namespace KeySet

@[simp] theorem has_zero (key : Key) : has 0 key = false := by
  simp [has]

@[simp] theorem has_or (keys others : KeySet) (key : Key) :
    has (keys ||| others) key = (keys.has key || others.has key) := by
  simp [has]

@[simp] theorem has_and_not (keys others : KeySet) (key : Key) :
    has (keys &&& ~~~others) key = (keys.has key && !others.has key) := by
  simp [has]

theorem least?_eq_none_iff_eq_zero {keys : KeySet} : keys.least? = none ↔ keys = 0 := by
  rw [least?_eq_none_iff]
  constructor
  · exact fun h => eq_of_has_eq fun key => by rw [h, has_zero]
  · rintro rfl key
    exact has_zero key

/-- The keys that are up in one of the states and down in the next. -/
def pressedAlong (down : KeySet) : List KeySet → KeySet
  | [] => 0
  | next :: rest => (next &&& ~~~down) ||| pressedAlong next rest

theorem pressedAlong_singleton (down next : KeySet) : pressedAlong down [next] = next &&& ~~~down :=
  BitVec.or_zero

theorem pressedAlong_append (down : KeySet) (states others : List KeySet) :
    pressedAlong down (states ++ others) =
      pressedAlong down states ||| pressedAlong (states.getLastD down) others := by
  induction states generalizing down with
  | nil => simp [pressedAlong]
  | cons next rest ih => rw [List.cons_append, pressedAlong, pressedAlong, ih, List.getLastD_cons, BitVec.or_assoc]

/-- A key is among them if the states have it up and then down. -/
theorem has_pressedAlong_iff {down : KeySet} {states : List KeySet} {key : Key} :
    (pressedAlong down states).has key ↔
      ∃ earlier before after later, down :: states = earlier ++ before :: after :: later ∧
        before.has key = false ∧ after.has key := by
  induction states generalizing down with
  | nil =>
    simp only [pressedAlong, has_zero, Bool.false_eq_true, false_iff]
    rintro ⟨earlier, before, after, later, h, -⟩
    have hl := congrArg List.length h
    simp at hl
    omega
  | cons next rest ih =>
    simp only [pressedAlong, has_or, has_and_not, Bool.or_eq_true, Bool.and_eq_true, Bool.not_eq_true', ih]
    constructor
    · rintro (⟨hn, hd⟩ | ⟨earlier, before, after, later, h, hb⟩)
      · exact ⟨[], down, next, rest, rfl, hd, hn⟩
      · exact ⟨down :: earlier, before, after, later, by rw [h, List.cons_append], hb⟩
    · rintro ⟨earlier, before, after, later, h, hb, ha⟩
      cases earlier with
      | nil =>
        simp only [List.nil_append, List.cons.injEq] at h
        obtain ⟨rfl, rfl, -⟩ := h
        exact .inl ⟨ha, hb⟩
      | cons first earlier =>
        simp only [List.cons_append, List.cons.injEq] at h
        exact .inr ⟨earlier, before, after, later, h.2, hb, ha⟩

end KeySet

namespace Keypad

/-! ### Events -/

/-- The states of the keys that events bring about, one after another. -/
def states (keypad : Keypad) : List KeyEvent → List KeySet
  | [] => []
  | event :: rest => (keypad.heed event).down :: (keypad.heed event).states rest

/-- The keys that events make go down. -/
def pressedBy (keypad : Keypad) (events : List KeyEvent) : KeySet :=
  KeySet.pressedAlong keypad.down (keypad.states events)

/-- The last of the states is the one that the events leave behind. -/
theorem getLastD_states (keypad : Keypad) (events : List KeyEvent) :
    (keypad.states events).getLastD keypad.down = (keypad.heedAll events).down := by
  induction events generalizing keypad with
  | nil => rfl
  | cons event rest ih =>
    rw [states, List.getLastD_cons]
    exact ih (keypad.heed event)

theorem wait_set {keypad : Keypad} {flagged : KeySet} (h : keypad.wait = some flagged) (key : Key)
    (pressed : Bool) :
    (keypad.set key pressed).wait = some (flagged ||| ((keypad.set key pressed).down &&& ~~~keypad.down)) := by
  simp only [set, h, Option.map_some, Option.some.injEq]
  apply KeySet.eq_of_has_eq
  intro other
  rw [KeySet.has_or, KeySet.has_and_not, KeySet.has_update]
  by_cases e : other = key
  · subst e
    cases pressed <;> cases hd : keypad.down.has other <;> simp [KeySet.has_update]
  · cases pressed <;> cases hd : keypad.down.has key <;> simp [KeySet.has_update, e]

theorem wait_setAll {keypad : Keypad} {flagged : KeySet} (h : keypad.wait = some flagged) (target : KeySet) :
    (keypad.setAll target).wait = some (flagged ||| (target &&& ~~~keypad.down)) := by
  rw [setAll, h]
  rfl

theorem wait_heed {keypad : Keypad} {flagged : KeySet} (h : keypad.wait = some flagged) (event : KeyEvent) :
    (keypad.heed event).wait = some (flagged ||| ((keypad.heed event).down &&& ~~~keypad.down)) := by
  cases ht : event.target? with
  | none => simp [heed_of_target?_eq_none ht, h]
  | some key =>
    rw [heed_of_target? ht]
    exact wait_set h key event.pressed

/-- A wait gathers the keys that go down. -/
theorem wait_heedAll {keypad : Keypad} {flagged : KeySet} (h : keypad.wait = some flagged)
    (events : List KeyEvent) :
    (keypad.heedAll events).wait = some (flagged ||| keypad.pressedBy events) := by
  induction events generalizing keypad flagged with
  | nil => simpa [heedAll, pressedBy, states, KeySet.pressedAlong] using h
  | cons event rest ih =>
    have hr := ih (wait_heed h event)
    rw [BitVec.or_assoc] at hr
    exact hr

theorem wait_heed_eq_none {keypad : Keypad} (h : keypad.wait = none) (event : KeyEvent) :
    (keypad.heed event).wait = none := by
  cases ht : event.target? with
  | none => rw [heed_of_target?_eq_none ht, h]
  | some key => simp [heed_of_target? ht, set, h]

theorem wait_setAll_eq_none {keypad : Keypad} (h : keypad.wait = none) (target : KeySet) :
    (keypad.setAll target).wait = none := by
  rw [setAll, h]
  rfl

theorem wait_heedAll_eq_none {keypad : Keypad} (h : keypad.wait = none) (events : List KeyEvent) :
    (keypad.heedAll events).wait = none := by
  induction events generalizing keypad with
  | nil => exact h
  | cons event rest ih => exact ih (wait_heed_eq_none h event)

theorem awaiting_eq_false_iff {keypad : Keypad} : keypad.awaiting = false ↔ keypad.wait = none := by
  simp [awaiting]

/-- Events neither begin a wait nor end one. -/
theorem awaiting_heedAll (keypad : Keypad) (events : List KeyEvent) :
    (keypad.heedAll events).awaiting = keypad.awaiting := by
  cases h : keypad.wait with
  | none => rw [awaiting_eq_false_iff.2 h, awaiting_eq_false_iff.2 (wait_heedAll_eq_none h events)]
  | some flagged => rw [awaiting, wait_heedAll h events, awaiting, h, Option.isSome_some, Option.isSome_some]

theorem awaiting_heed (keypad : Keypad) (event : KeyEvent) : (keypad.heed event).awaiting = keypad.awaiting :=
  keypad.awaiting_heedAll [event]

theorem awaiting_setAll (keypad : Keypad) (target : KeySet) : (keypad.setAll target).awaiting = keypad.awaiting := by
  cases h : keypad.wait with
  | none => rw [awaiting_eq_false_iff.2 h, awaiting_eq_false_iff.2 (wait_setAll_eq_none h target)]
  | some flagged => rw [awaiting, wait_setAll h target, awaiting, h, Option.isSome_some, Option.isSome_some]

/-! ### Taking a press -/

theorem takePress_of_wait_eq_none {keypad : Keypad} (h : keypad.wait = none) :
    keypad.takePress = (none, { keypad with wait := some 0 }) := by
  rw [takePress, h]

theorem takePress_of_wait_eq_zero {keypad : Keypad} (h : keypad.wait = some 0) :
    keypad.takePress = (none, keypad) := by
  simp only [takePress, h, KeySet.least?_eq_none_iff_eq_zero.2 rfl]

theorem takePress_of_least? {keypad : Keypad} {flagged : KeySet} {key : Key} (h : keypad.wait = some flagged)
    (hk : flagged.least? = some key) : keypad.takePress = (some key, { keypad with wait := none }) := by
  simp only [takePress, h, hk]

/-- Which press there is to take depends on the wait alone. -/
theorem fst_takePress (keypad : Keypad) : keypad.takePress.1 = keypad.wait.bind KeySet.least? := by
  cases hw : keypad.wait with
  | none => rw [takePress_of_wait_eq_none hw, Option.bind_none]
  | some flagged =>
    cases hl : flagged.least? with
    | none =>
      obtain rfl := KeySet.least?_eq_none_iff_eq_zero.1 hl
      rw [takePress_of_wait_eq_zero hw, Option.bind_some, hl]
    | some key => rw [takePress_of_least? hw hl, Option.bind_some, hl]

theorem snd_takePress (keypad : Keypad) :
    keypad.takePress.2 =
      { keypad with wait := if keypad.takePress.1.isSome then none else some keypad.flagged } := by
  cases hw : keypad.wait with
  | none => simp [takePress_of_wait_eq_none hw, flagged, hw]
  | some flagged =>
    cases hl : flagged.least? with
    | none =>
      have hf : some keypad.flagged = keypad.wait := by rw [Keypad.flagged, hw, Option.getD_some]
      obtain rfl := KeySet.least?_eq_none_iff_eq_zero.1 hl
      rw [takePress_of_wait_eq_zero hw, hf]
      rfl
    | some key => simp [takePress_of_least? hw hl]

theorem down_takePress (keypad : Keypad) : keypad.takePress.2.down = keypad.down := by
  rw [snd_takePress]

/-- There is no press to take before the wait, and none in it while no key went down. -/
theorem takePress_eq_none_iff {keypad : Keypad} :
    keypad.takePress.1 = none ↔ keypad.awaiting = false ∨ keypad.flagged = 0 := by
  cases hw : keypad.wait with
  | none => simp [takePress_of_wait_eq_none hw, awaiting, hw]
  | some flagged =>
    have hf : keypad.flagged = flagged := by simp [Keypad.flagged, hw]
    have ha : keypad.awaiting = true := by simp [awaiting, hw]
    rw [hf, ha]
    cases hl : flagged.least? with
    | none =>
      obtain rfl := KeySet.least?_eq_none_iff_eq_zero.1 hl
      simp [takePress_of_wait_eq_zero hw]
    | some key =>
      have h0 : flagged ≠ 0 := by
        intro h0
        rw [KeySet.least?_eq_none_iff_eq_zero.2 h0] at hl
        cases hl
      simpa [takePress_of_least? hw hl] using h0

end Keypad

end Chip8
