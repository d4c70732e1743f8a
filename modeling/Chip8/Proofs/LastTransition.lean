import Chip8.Proofs.KeyOrder
import Mathlib.Data.List.Induction

/-!
# The last transition

What the last transition of a keypad tells of the keys.  The writes to single keys and the bulk writes that make a key
go down are recorded (`Keypad.Records`); other operations are silent and leave the last transition alone, though a
silent bulk write may let keys go (`Keypad.has_operate_of_silent`).  So the last transition is that of the last recorded
write, and the keys contradict it once a later bulk write let its key go (`Keypad.exists_records_after`).
-/

namespace Chip8

namespace Keypad

/-- What can be done to a keypad. -/
inductive Operation where
  | set (event : KeyEvent)
  | setAll (target : KeySet)
  | takePress
  | reset
  deriving DecidableEq, Repr

def operate (keypad : Keypad) : Operation → Keypad
  | .set event => keypad.heed event
  | .setAll target => keypad.setAll target
  | .takePress => keypad.takePress.2
  | .reset => {}

def after (keypad : Keypad) (operations : List Operation) : Keypad := operations.foldl operate keypad

theorem after_append (keypad : Keypad) (operations others : List Operation) :
    keypad.after (operations ++ others) = (keypad.after operations).after others :=
  List.foldl_append

/-- The operation is a write that the keypad records as the transition. -/
inductive Records (keypad : Keypad) : Operation → Transition → Prop
  | set {event : KeyEvent} {key : Key} (target : event.target? = some key) :
    Records keypad (.set event) ⟨key, keypad.down.has key, event.pressed⟩
  | setAll {target : KeySet} {key : Key} (goesDown : keypad.GoesDown target key)
    (least : ∀ other, other < key → ¬keypad.GoesDown target other) : Records keypad (.setAll target) ⟨key, false, true⟩

/-- The operation neither is recorded nor resets the keypad. -/
structure Silent (keypad : Keypad) (operation : Operation) : Prop where
  not_reset : operation ≠ .reset
  not_records : ∀ transition, ¬keypad.Records operation transition

/-- The operations are silent, one after another. -/
def SilentAlong (keypad : Keypad) : List Operation → Prop
  | [] => True
  | operation :: rest => keypad.Silent operation ∧ (keypad.operate operation).SilentAlong rest

variable {keypad : Keypad} {operation : Operation} {transition : Transition}

/-! ### One operation -/

/-- A recorded write leaves its key in the state that the transition tells. -/
theorem operate_of_records (h : keypad.Records operation transition) :
    (keypad.operate operation).last = some transition ∧
      (keypad.operate operation).down.has transition.key = transition.after := by
  cases h with
  | @set event key ht =>
    rw [operate, heed_of_target? ht]
    exact ⟨rfl, (KeySet.has_update ..).trans (if_pos rfl)⟩
  | setAll goesDown least => exact ⟨last_setAll_of_goesDown goesDown least, goesDown.2⟩

theorem target?_eq_none_of_silent {event : KeyEvent} (h : keypad.Silent (.set event)) : event.target? = none :=
  Option.eq_none_iff_forall_ne_some.2 fun _ ht => h.not_records _ (.set ht)

/-- If a key goes down, then so does a lowest one. -/
theorem not_goesDown_of_silent {target : KeySet} (h : keypad.Silent (.setAll target)) (key : Key) :
    ¬keypad.GoesDown target key := by
  intro hkey
  exact h.not_records _ (.setAll hkey fun other _ => not_goesDown_of_silent h other)
termination_by key

theorem last_operate_of_silent (h : keypad.Silent operation) : (keypad.operate operation).last = keypad.last := by
  cases operation with
  | set event => rw [operate, heed_of_target?_eq_none (target?_eq_none_of_silent h)]
  | setAll target => exact last_setAll_of_not_goesDown (not_goesDown_of_silent h)
  | takePress => rw [operate, snd_takePress]
  | reset => exact absurd rfl h.not_reset

/-- A silent operation makes no key go down, and lets a key go only if it is a bulk write without the key. -/
theorem has_operate_of_silent (h : keypad.Silent operation) (key : Key) :
    (keypad.operate operation).down.has key ↔
      keypad.down.has key ∧ ∀ target, operation = .setAll target → target.has key := by
  cases operation with
  | set event => simp [operate, heed_of_target?_eq_none (target?_eq_none_of_silent h)]
  | setAll target =>
    simp only [operate, setAll, Operation.setAll.injEq, forall_eq']
    refine ⟨fun hkey => ⟨?_, hkey⟩, And.right⟩
    by_contra hup
    exact not_goesDown_of_silent h key ⟨Bool.eq_false_iff.2 hup, hkey⟩
  | takePress => simp [operate, down_takePress]
  | reset => exact absurd rfl h.not_reset

/-! ### One operation after another -/

theorem SilentAlong.append_singleton {operations : List Operation} (h : keypad.SilentAlong operations)
    (hs : (keypad.after operations).Silent operation) : keypad.SilentAlong (operations ++ [operation]) := by
  induction operations generalizing keypad with
  | nil => exact ⟨hs, trivial⟩
  | cons first rest ih => exact ⟨h.1, ih h.2 hs⟩

theorem has_after_of_silentAlong {operations : List Operation} (h : keypad.SilentAlong operations) (key : Key) :
    (keypad.after operations).down.has key ↔
      keypad.down.has key ∧ ∀ target, .setAll target ∈ operations → target.has key := by
  induction operations generalizing keypad with
  | nil => simp [after]
  | cons operation rest ih =>
    have hrest : (keypad.after (operation :: rest)).down.has key ↔ _ := ih h.2
    simp only [hrest, has_operate_of_silent h.1 key, List.mem_cons, eq_comm (a := operation)]
    constructor
    · rintro ⟨⟨hkey, hfirst⟩, hlater⟩
      exact ⟨hkey, fun target ht => ht.elim (hfirst target) (hlater target)⟩
    · rintro ⟨hkey, hall⟩
      exact ⟨⟨hkey, fun target ht => hall target (.inl ht)⟩, fun target ht => hall target (.inr ht)⟩

/-- The last transition of a keypad that was new once is that of its last recorded write. -/
theorem exists_records {operations : List Operation}
    (h : (({} : Keypad).after operations).last = some transition) :
    ∃ earlier operation later, operations = earlier ++ operation :: later ∧
      (({} : Keypad).after earlier).Records operation transition ∧
      (({} : Keypad).after (earlier ++ [operation])).SilentAlong later := by
  induction operations using List.reverseRecOn with
  | nil => cases h
  | append_singleton operations operation ih =>
    rw [after_append] at h
    by_cases hr : ∃ recorded, (({} : Keypad).after operations).Records operation recorded
    · obtain ⟨recorded, hr⟩ := hr
      obtain rfl := Option.some.inj ((operate_of_records hr).1.symm.trans h)
      exact ⟨operations, operation, [], rfl, hr, trivial⟩
    · have hs : (({} : Keypad).after operations).Silent operation := by
        refine ⟨?_, not_exists.1 hr⟩
        rintro rfl
        cases h
      obtain ⟨earlier, writer, later, rfl, hw, hl⟩ := ih ((last_operate_of_silent hs).symm.trans h)
      refine ⟨earlier, writer, later ++ [operation], by simp, hw, hl.append_singleton ?_⟩
      rwa [← after_append, List.append_assoc]

/-- Whatever was done to a new keypad, its last transition is that of the last recorded write.  The key of the
transition is down if the transition says so and no bulk write since then let it go: a bulk write that makes no key go
down is not recorded, even if keys go up. -/
theorem exists_records_after {operations : List Operation}
    (h : (({} : Keypad).after operations).last = some transition) :
    ∃ earlier operation later, operations = earlier ++ operation :: later ∧
      (({} : Keypad).after earlier).Records operation transition ∧
      (({} : Keypad).after (earlier ++ [operation])).SilentAlong later ∧
      ((({} : Keypad).after operations).down.has transition.key ↔
        transition.after ∧ ∀ target, .setAll target ∈ later → target.has transition.key) := by
  obtain ⟨earlier, operation, later, rfl, hr, hs⟩ := exists_records h
  refine ⟨earlier, operation, later, rfl, hr, hs, ?_⟩
  rw [List.append_cons, after_append, has_after_of_silentAlong hs, after_append]
  have hkey : ((({} : Keypad).after earlier).after [operation]).down.has transition.key = transition.after :=
    (operate_of_records hr).2
  rw [hkey]

/-- An event whose key does not exist, two keys that go down together, and the lower one up again. -/
theorem exists_records_after_release :
    let operations : List Operation := [.set ⟨16, true⟩, .takePress, .setAll 0x0018, .setAll 0x0010]
    (({} : Keypad).after operations).last = some ⟨3, false, true⟩ ∧
      (({} : Keypad).after operations).down.has 3 = false ∧
      ∃ target, Operation.setAll target ∈ operations ∧ target.has 3 = false := by
  intro operations
  have hlast : (({} : Keypad).after operations).last = some ⟨3, false, true⟩ := by decide
  have hup : (({} : Keypad).after operations).down.has 3 = false := by decide
  obtain ⟨earlier, operation, later, hsplit, -, -, hdown⟩ := exists_records_after hlast
  refine ⟨hlast, hup, ?_⟩
  by_contra hnone
  refine Bool.eq_false_iff.1 hup (hdown.2 ⟨rfl, fun target ht => ?_⟩)
  by_contra htarget
  refine hnone ⟨target, ?_, Bool.eq_false_iff.2 htarget⟩
  rw [hsplit]
  exact List.mem_append_right _ (List.mem_cons_of_mem _ ht)

/-- The last transition may tell that a key went down that is up: the release of all keys at once is not recorded. -/
theorem not_forall_last_agrees :
    ¬∀ (operations : List Operation) (transition : Transition),
      (({} : Keypad).after operations).last = some transition →
        (({} : Keypad).after operations).down.has transition.key = transition.after := by
  intro h
  have hkey := h [.set ⟨3, true⟩, .setAll 0] ⟨3, false, true⟩ (by decide)
  revert hkey
  decide

end Keypad

end Chip8
