import Chip8.Guarded.Machine
import Chip8.Proofs.Drawing
import Chip8.Proofs.DumpLines
import Chip8.Proofs.Reachable

/-!
# No check fails

The commands with their checks (`Guarded.perform`) give the reports of the commands without them, for every machine
whose counter and index are addresses.  Each lemma takes the operation of one part and shows that its checks succeed
and that it computes what the operation without them computes.  Reachable machines are of that kind, so no access is
out of bounds, no sum too large and no shift too wide, whatever a host does (`Guarded.no_mishap`).
-/

namespace Chip8.Guarded

/-! ### The keypad -/

@[simp] theorem isDown_val (keys : KeySet) (key : Key) : isDown keys key.val = .ok (keys.has key) := by
  rw [isDown, index_val, ok_bind, pure_eq_ok]

/-- Any number names a key by its last hexadecimal digit. -/
theorem isPressed_eq (keypad : Keypad) (key : Nat) : isPressed keypad key = .ok (keypad.isPressed key) := by
  have hmask : key &&& (Keypad.size - 1) = (Fin.ofNat 16 key).val := Nat.and_two_pow_sub_one_eq_mod key 4
  rw [isPressed, hmask, isDown_val, Keypad.isPressed]

/-- A press is flagged while one is awaited, if the key was up. -/
theorem recordPress_val (keypad : Keypad) (key : Key) (pressed : Bool) :
    recordPress keypad key.val pressed = .ok { keypad with wait := (keypad.set key pressed).wait } := by
  cases keypad with
  | mk down last wait =>
    cases wait with
    | none => rfl
    | some flagged =>
      cases pressed with
      | false => rfl
      | true =>
        simp only [recordPress, isDown_val, ok_bind, Keypad.set, Option.map_some, Bool.true_and]
        cases hd : down.has key with
        | true => rfl
        | false =>
          have hbit : (1 : KeySet) <<< key.val = .twoPow 16 key.val := rfl
          simp only [Bool.false_eq_true, if_false, shiftLeft_of_lt key.isLt, ok_bind, pure_eq_ok, Bool.not_false,
            if_true, KeySet.update, hbit]

theorem setKey_eq (keypad : Keypad) (event : KeyEvent) : setKey keypad event = .ok (keypad.apply event) := by
  by_cases h : event.key < 16
  · have ht : event.target? = some ⟨event.key, h⟩ := dif_pos h
    have hr := recordPress_val keypad ⟨event.key, h⟩ event.pressed
    rw [setKey, if_neg (show ¬Keypad.size ≤ event.key from Nat.not_le.2 h), hr, ok_bind, index_of_lt h, ok_bind,
      pure_eq_ok, Keypad.apply, ht]
    rfl
  · have ht : event.target? = none := dif_neg h
    rw [setKey, if_pos (show Keypad.size ≤ event.key from Nat.not_lt.1 h), pure_eq_ok, Keypad.apply, ht]

theorem heedAll_eq (events : List KeyEvent) (keypad : Keypad) :
    heedAll events keypad = .ok (keypad.heedAll events) := by
  induction events generalizing keypad with
  | nil => rfl
  | cons event rest ih =>
    rw [heedAll, setKey_eq, ok_bind]
    show _ = Except.ok ((keypad.heed event).heedAll rest)
    rw [Keypad.heed]
    cases keypad.apply event with
    | ok changed => exact ih changed
    | error fault => exact ih keypad

/-- A wait gathers those of the keys that go down. -/
theorem recordPresses_map_val (target down : KeySet) (last : Option Transition) (keys : List Key) (flagged : KeySet) :
    ∃ gathered, recordPresses target (keys.map Fin.val) ⟨down, last, some flagged⟩ = .ok ⟨down, last, some gathered⟩ ∧
      ∀ key, gathered.has key ↔ flagged.has key ∨ key ∈ keys ∧ (target &&& ~~~down).has key := by
  induction keys generalizing flagged with
  | nil => exact ⟨flagged, rfl, fun key => by simp⟩
  | cons first rest ih =>
    have hw := Keypad.wait_set (show (Keypad.mk down last (some flagged)).wait = _ from rfl) first (target.has first)
    obtain ⟨gathered, hg, hk⟩ := ih _
    refine ⟨gathered, ?_, ?_⟩
    · rw [List.map_cons, recordPresses, isDown_val, ok_bind, recordPress_val, ok_bind, hw]
      exact hg
    · intro key
      rw [hk, KeySet.has_or, KeySet.has_and_not, KeySet.has_and_not, Keypad.set, KeySet.has_update]
      by_cases he : key = first
      · subst he
        cases target.has key <;> cases down.has key <;> simp
      · simp [he]

theorem recordPresses_of_wait_eq_none {keypad : Keypad} (h : keypad.wait = none) (target : KeySet) (keys : List Key) :
    recordPresses target (keys.map Fin.val) keypad = .ok keypad := by
  induction keys with
  | nil => rfl
  | cons first rest ih =>
    have hw : recordPress keypad first.val (target.has first) = .ok keypad := by simp [recordPress, h]
    rw [List.map_cons, recordPresses, isDown_val, ok_bind, hw, ok_bind, ih]

theorem firstPress?_map_val (down target : KeySet) (keys : List Key) :
    firstPress? down target (keys.map Fin.val) = .ok (keys.find? (target &&& ~~~down).has) := by
  induction keys with
  | nil => rfl
  | cons key rest ih =>
    rw [List.map_cons, firstPress?, isDown_val, ok_bind, isDown_val, ok_bind, List.find?_cons, KeySet.has_and_not,
      Bool.and_comm]
    cases target.has key && !down.has key with
    | true => rw [if_pos rfl, index_val, ok_bind, pure_eq_ok]
    | false => rw [if_neg Bool.false_ne_true, ih]

/-- The loops over the keys write what `Keypad.setAll` writes at once. -/
theorem setAll_eq (keypad : Keypad) (target : KeySet) : setAll keypad target = .ok (keypad.setAll target) := by
  have hkeys : List.range Keypad.size = (List.finRange 16).map Fin.val := rfl
  have hfirst (down : KeySet) := firstPress?_map_val down target (List.finRange 16)
  cases hw : keypad.wait with
  | none =>
    rw [setAll, hkeys, recordPresses_of_wait_eq_none hw, ok_bind, hfirst, ok_bind, pure_eq_ok, Keypad.setAll, hw]
    rfl
  | some flagged =>
    obtain ⟨gathered, hg, hk⟩ := recordPresses_map_val target keypad.down keypad.last (List.finRange 16) flagged
    have hpresses : gathered = flagged ||| (target &&& ~~~keypad.down) := by
      apply KeySet.eq_of_has_eq
      intro key
      rw [Bool.eq_iff_iff, hk, KeySet.has_or, Bool.or_eq_true]
      simp only [List.mem_finRange, true_and]
    have hkeypad : keypad = ⟨keypad.down, keypad.last, some flagged⟩ := by rw [← hw]
    rw [hkeypad, setAll, hkeys, hg, ok_bind, hfirst, ok_bind, pure_eq_ok, Keypad.setAll, hpresses]
    rfl

/-! ### Registers and memory -/

@[simp] theorem register_val (machine : Machine) (x : Register) :
    register machine x.val = .ok (machine.register x) := by
  rw [register, index_val, ok_bind, pure_eq_ok]

example (machine : Machine) : register machine 16 = .error (.index 16 16) := rfl

@[simp] theorem setRegister_val (machine : Machine) (x : Register) (value : UInt8) :
    setRegister machine x.val value = .ok (machine.setRegister x value) := by
  rw [setRegister, index_val, ok_bind, pure_eq_ok]

/-- A slice of the memory has the bytes that a reading gives. -/
theorem slice_of_read {memory : Memory} {start length : Nat} {bytes : List UInt8}
    (h : memory.read start length = .ok bytes) : slice memory.toList start (start + length) = .ok bytes := by
  have hl : memory.toList.length = 4096 := Vector.length_toList
  rw [Memory.read] at h
  split at h
  · rename_i hr
    cases h
    rw [slice_of_le (by omega) (by omega), Nat.add_sub_cancel_left]
    congr 1
    apply List.ext_getElem
    · rw [List.length_take, List.length_drop, List.length_ofFn]
      omega
    · intro k h₁ h₂
      simp
  · cases h

theorem slice_registers (registers : Vector UInt8 16) (x : Register) :
    slice registers.toList 0 (x.val + 1) = .ok (registers.toList.take (x.val + 1)) := by
  have hx := x.isLt
  have hl : registers.toList.length = 16 := Vector.length_toList
  rw [slice_of_le (by omega) (by omega), List.drop_zero, Nat.sub_zero]

section access

variable {α : Type} {memory : Memory} {start : Nat} {use : Nat → Nat → Guarded α}

theorem access_of_le {length : Nat} {value : α} (h : start + length ≤ 4096)
    (hu : use start (start + length) = .ok value) : access start length use = .ok (.ok value) := by
  rw [access, add_of_lt (by omega), ok_bind, if_neg (show ¬Memory.size < _ from Nat.not_lt.2 h), hu, ok_bind,
    pure_eq_ok]

theorem access_of_lt {length : Nat} (h : 4096 < start + length) (h' : start + length < 65536) :
    access start length use = .ok (.error (.outOfBounds start)) := by
  rw [access, add_of_lt h', ok_bind, if_pos (show Memory.size < _ from h), pure_eq_ok]

/-- A use of cells that reads them has their bytes, or fails as the reading does. -/
theorem access_eq_map_read {length : Nat} {f : List UInt8 → α} (hs : start < 4096) (hl : length ≤ 16)
    (hu : ∀ bytes, memory.read start length = .ok bytes → use start (start + length) = .ok (f bytes)) :
    access start length use = .ok ((memory.read start length).map f) := by
  by_cases hr : start + length ≤ 4096
  · rw [access_of_le hr (hu _ (Memory.read_eq_ok hr)), Memory.read_eq_ok hr]
    rfl
  · rw [access_of_lt (by omega) (by omega), Memory.read_eq_error (by omega)]
    rfl

/-- A use of cells that writes to them leaves the memory with the bytes, or fails as the writing does. -/
theorem access_eq_map_store {length : Nat} {bytes : List UInt8} {f : Memory → α} (hs : start < 4096) (hl : length ≤ 16)
    (he : bytes.length = length)
    (hu : start + length ≤ 4096 → use start (start + length) = .ok (f (memory.write start bytes))) :
    access start length use = .ok ((memory.store start bytes).map f) := by
  subst he
  by_cases hr : start + bytes.length ≤ 4096
  · rw [access_of_le hr (hu hr), Memory.store_eq_ok hr]
    rfl
  · rw [access_of_lt (by omega) (by omega), Memory.store_eq_error (by omega)]
    rfl

end access

/-! ### Instructions -/

private theorem toNat_shiftRight (a : UInt8) (amount : Nat) :
    (UInt8.ofBitVec (a.toBitVec >>> amount)).toNat = a.toNat >>> amount := by
  rw [← UInt8.toNat_toBitVec, BitVec.toNat_ushiftRight, UInt8.toNat_toBitVec]

/-- Shifting right by one pushes the lowest bit out. -/
private theorem and_one_eq (a : UInt8) : a &&& 1 = (decide (a.toNat % 2 = 1)).toUInt8 := by
  apply UInt8.toNat_inj.1
  have hand : (a &&& 1).toNat = a.toNat % 2 := (UInt8.toNat_and a 1).trans (Nat.and_one_is_mod _)
  rw [hand]
  rcases Nat.mod_two_eq_zero_or_one a.toNat with h | h <;> rw [h] <;> rfl

/-- Shifting left by one pushes the highest bit out. -/
private theorem shiftRight_seven_eq (a : UInt8) :
    UInt8.ofBitVec (a.toBitVec >>> 7) = (decide (128 ≤ a.toNat)).toUInt8 := by
  apply UInt8.toNat_inj.1
  have ha := a.toNat_lt
  rw [toNat_shiftRight, Nat.shiftRight_eq_div_pow]
  by_cases h : 128 ≤ a.toNat
  · rw [decide_eq_true h]
    show a.toNat / 128 = 1
    omega
  · rw [decide_eq_false h]
    show a.toNat / 128 = 0
    omega

/-- The shifts are by less than the eight bits of a register. -/
theorem compute_eq (op : ArithmeticOp) (a b : UInt8) :
    compute op a b = .ok (op.result a b, (op.flag? a b).map Bool.toUInt8) := by
  cases op with
  | shiftRight =>
    have hresult : UInt8.ofBitVec (a.toBitVec >>> 1) = a / 2 := by
      apply UInt8.toNat_inj.1
      rw [toNat_shiftRight, Nat.shiftRight_eq_div_pow, UInt8.toNat_div]
      rfl
    rw [compute, shiftRight_of_lt (by decide), ok_bind, pure_eq_ok, hresult, and_one_eq]
    rfl
  | shiftLeft =>
    have hresult : UInt8.ofBitVec (a.toBitVec <<< 1) = a * 2 := by
      apply UInt8.toNat_inj.1
      rw [← UInt8.toNat_toBitVec, BitVec.toNat_shiftLeft, Nat.shiftLeft_eq, UInt8.toNat_mul, UInt8.toNat_toBitVec]
      rfl
    rw [compute, shiftLeft_of_lt (by decide), ok_bind, shiftRight_of_lt (by decide), ok_bind, pure_eq_ok, hresult,
      shiftRight_seven_eq]
    rfl
  | _ => rfl

theorem calculate_val (machine : Machine) (op : ArithmeticOp) (x y : Register) :
    calculate machine op x.val y.val = .ok (machine.calculate op x y) := by
  rw [calculate, register_val, ok_bind, register_val, ok_bind, compute_eq, ok_bind]
  dsimp only
  rw [setRegister_val, ok_bind, Machine.calculate]
  cases op.flag? (machine.register x) (machine.register y) with
  | none => rfl
  | some flag => exact setRegister_val _ Machine.flagRegister _

theorem decimalDigits_toNat (value : UInt8) : decimalDigits value.toNat = .ok (Machine.decimalDigits value) := by
  have hv := value.toNat_lt
  rw [decimalDigits, div_of_ne (by decide), ok_bind, div_of_ne (by decide), ok_bind, mod_of_ne (by decide), ok_bind,
    mod_of_ne (by decide), ok_bind, pure_eq_ok, Machine.decimalDigits]
  simp [← UInt8.toNat_inj]
  omega

theorem awaitKey_val (machine : Machine) (x : Register) : awaitKey machine x.val = .ok (machine.awaitKey x) := by
  rw [awaitKey, Machine.awaitKey]
  rcases machine.keypad.takePress with ⟨_ | key, keypad⟩
  · rfl
  · exact congrArg (· >>= _) (setRegister_val _ x _)

variable {machine : Machine}

theorem drawSprite_val (h : machine.Bounded) (x y : Register) (n : Fin 16) :
    drawSprite machine x.val y.val n.val = .ok (machine.drawSprite x y n.val) := by
  apply access_eq_map_read h.index_lt (Nat.le_of_lt n.isLt)
  intro bytes hread
  let column := Fin.ofNat 64 (machine.register x).toNat
  let row := Fin.ofNat 32 (machine.register y).toNat
  let cleared := machine.setRegister Machine.flagRegister 0
  have hcolumn : mod (machine.register x).toNat Screen.width = .ok column.val := mod_of_ne (by decide)
  have hrow : mod (machine.register y).toNat Screen.height = .ok row.val := mod_of_ne (by decide)
  have hbytes : slice cleared.memory.toList machine.index.toNat (machine.index.toNat + n.val) = .ok bytes :=
    slice_of_read hread
  have hdrawn := drawRows_eq cleared.screen column row (show bytes.length < 32 by
    have hn := n.isLt
    rw [Memory.length_of_read hread]
    omega)
  rw [register_val, ok_bind, hcolumn, ok_bind, register_val, ok_bind, hrow, ok_bind, setRegister_val, ok_bind, hbytes,
    ok_bind, hdrawn, ok_bind, setRegister_val]
  -- the flag is written twice
  simp only [Machine.setRegister, cleared, Vector.set_set]
  rfl

theorem storeDecimal_val (h : machine.Bounded) (x : Register) :
    storeDecimal machine x.val = .ok (machine.execute (.storeDecimal x)) := by
  have hlength := Machine.length_decimalDigits (machine.register x)
  apply access_eq_map_store h.index_lt (by decide) hlength
  intro hr
  rw [register_val, ok_bind, decimalDigits_toNat, ok_bind, copy_of_le (by omega) hr, ok_bind, pure_eq_ok]

theorem storeRegisters_val (h : machine.Bounded) (x : Register) :
    storeRegisters machine x.val = .ok (machine.execute (.storeRegisters x)) := by
  have hx := x.isLt
  have hlength := Machine.length_take_registers machine x
  rw [storeRegisters, add_of_lt (by omega), ok_bind]
  apply access_eq_map_store h.index_lt (by omega) hlength
  intro hr
  rw [slice_registers, ok_bind, copy_of_le (by omega) hr, ok_bind, pure_eq_ok]

theorem loadRegisters_val (h : machine.Bounded) (x : Register) :
    loadRegisters machine x.val = .ok (machine.execute (.loadRegisters x)) := by
  have hx := x.isLt
  have hlength := Machine.length_take_registers machine x
  rw [loadRegisters, add_of_lt (by omega), ok_bind]
  apply access_eq_map_read h.index_lt (by omega)
  intro bytes hread
  rw [slice_registers, ok_bind, slice_of_read hread, ok_bind,
    if_pos (hlength.trans (Memory.length_of_read hread).symm), pure_eq_ok]

/-- A digit is less than sixteen, so the address of its glyph fits a word. -/
theorem glyphAddress_eq (value : UInt8) :
    glyphAddress value = .ok (Font.location + Font.glyphSize * (Fin.ofNat 16 value.toNat).val) := by
  have hmask : (value &&& 0xF).toNat = (Fin.ofNat 16 value.toNat).val :=
    (UInt8.toNat_and value 0xF).trans (Nat.and_two_pow_sub_one_eq_mod value.toNat 4)
  have hdigit := (Fin.ofNat 16 value.toNat).isLt
  rw [glyphAddress, hmask, Font.location, Font.glyphSize, mul_of_lt (by omega), ok_bind, add_of_lt (by omega)]

/-- The registers of an instruction stand at the numbers that are cut out of its opcode, and whatever it looks up
exists. -/
theorem execute_encode (h : machine.Bounded) (instruction : Instruction) :
    execute machine instruction.encode.x.val instruction.encode.y.val instruction =
      .ok (machine.execute instruction) := by
  cases instruction with
  | routine nnn | clear | ret | jump nnn | call nnn | setIndex nnn => rfl
  | jumpOffset nnn =>
    rw [execute, show register machine 0 = .ok (machine.register 0) from register_val machine 0]
    rfl
  | skipEqual x nn | skipNotEqual x nn | set x nn | add x nn =>
    have hnn := nn.toNat_lt
    simp [Instruction.encode, Opcode.x_ofByte, hnn, execute, Machine.execute]
  | random x nn =>
    have hfirst : index 0 1 = .ok 0 := index_of_lt Nat.one_pos
    simp only [Instruction.encode, Opcode.x_ofByte (show 0xC < 16 by decide) nn.toNat_lt, execute, hfirst, ok_bind,
      setRegister_val]
    rfl
  | skipSame x y | skipNotSame x y =>
    simp [Instruction.encode, Opcode.x_ofPair, Opcode.y_ofPair, execute, Machine.execute]
  | arithmetic op x y =>
    simp [Instruction.encode, Opcode.x_ofPair, Opcode.y_ofPair, op.code_lt, execute, Machine.execute, calculate_val]
  | draw x y n =>
    simp [Instruction.encode, Opcode.x_ofPair, Opcode.y_ofPair, execute, Machine.execute, drawSprite_val h]
  | readDelay x | setDelay x | setSound x | addIndex x =>
    simp [Instruction.encode, Opcode.x_ofByte, execute, Machine.execute]
  | skipKeyDown x | skipKeyUp x =>
    simp [Instruction.encode, Opcode.x_ofByte, execute, Machine.execute, isPressed_eq]
  | awaitKey x => simp [Instruction.encode, Opcode.x_ofByte, execute, Machine.execute, awaitKey_val]
  | indexGlyph x =>
    simp [Instruction.encode, Opcode.x_ofByte, execute, Machine.execute, glyphAddress_eq, Font.address]
  | storeDecimal x => simp [Instruction.encode, Opcode.x_ofByte, execute, storeDecimal_val h]
  | storeRegisters x => simp [Instruction.encode, Opcode.x_ofByte, execute, storeRegisters_val h]
  | loadRegisters x => simp [Instruction.encode, Opcode.x_ofByte, execute, loadRegisters_val h]

/-! ### Steps -/

theorem fetch_eq (h : machine.Bounded) :
    fetch machine = .ok (Opcode.read machine.memory.toArray machine.counter.toNat) := by
  have hcounter := h.counter_lt
  rw [fetch]
  dsimp only
  rw [add_of_lt (by omega), ok_bind]
  by_cases hp : machine.counter.toNat + 1 < 4096
  · rw [if_pos (show _ < Memory.size from hp), index_of_lt hcounter, ok_bind, ok_bind, index_of_lt hp, ok_bind,
      pure_eq_ok, Machine.read_of_fetches ⟨hp, rfl⟩]
    rfl
  · rw [if_neg (show ¬_ < Memory.size from hp), pure_eq_ok, Machine.read_of_le (Nat.not_lt.1 hp)]
    rfl

/-- The masks leave one digit, and the shifts move it to the lowest place. -/
theorem digits_eq (opcode : Opcode) : digits opcode = .ok (opcode.family.val, opcode.x.val, opcode.y.val) := by
  rw [digits, shiftRight_of_lt (by decide), ok_bind, shiftRight_of_lt (by decide), ok_bind,
    shiftRight_of_lt (by decide), ok_bind, pure_eq_ok, Opcode.family_shiftRight, Opcode.x_shiftRight,
    Opcode.y_shiftRight]

theorem dispatch_eq (h : machine.Bounded) (opcode : Opcode) :
    dispatch machine opcode = .ok (machine.dispatch opcode) := by
  rw [dispatch]
  dsimp only
  rw [digits_eq, ok_bind, Machine.dispatch]
  dsimp only
  cases hd : Instruction.decode? opcode with
  | none => rfl
  | some instruction =>
    have he := execute_encode h.advanced instruction
    rw [Instruction.encode_of_decode? hd, Machine.advanced] at he
    dsimp only
    rw [he, ok_bind]
    cases Machine.execute { machine with counter := Advance.skip.apply machine.counter } instruction <;> rfl

theorem cycle_eq (h : machine.Bounded) : cycle machine = .ok machine.cycle := by
  rw [cycle, fetch_eq h, ok_bind, Machine.cycle]
  cases Opcode.read machine.memory.toArray machine.counter.toNat with
  | error fault => rfl
  | ok opcode =>
    dsimp only
    rw [dispatch_eq h, ok_bind, pure_eq_ok]

theorem step_eq (h : machine.Bounded) : step machine = .ok machine.step := by
  have hc : cycle { machine with keypad := machine.keypad.heedAll machine.pending, pending := [] } = _ :=
    cycle_eq h.applyPending
  rw [step, heedAll_eq, ok_bind, hc, ok_bind, pure_eq_ok]
  rfl

theorem tick_eq (h : machine.Bounded) (events : List KeyEvent) : tick machine events = .ok (machine.tick events) := by
  have hs : step { machine with keypad := machine.keypad.heedAll events } = _ := step_eq { h with }
  rw [tick, heedAll_eq, ok_bind, hs, ok_bind, pure_eq_ok]
  rfl

/-! ### Commands -/

private theorem with_initial {machine : Machine} (h : machine.memory = Memory.initial) :
    { machine with memory := Memory.initial } = machine := by
  rw [← h]

theorem reset_eq (machine : Machine) : reset machine = .ok machine.reset := by
  have hlocation : Font.location = 80 := rfl
  have hlength : Font.bytes.length = 80 := rfl
  have hglyphs : copy (.replicate 4096 0) Font.location (Font.location + Font.bytes.length) Font.bytes =
      .ok Memory.initial := copy_of_le rfl (by omega)
  rw [reset, add_of_lt (by omega), ok_bind, hglyphs, ok_bind, pure_eq_ok, with_initial (by simp only [Machine.reset])]

theorem create_eq (timing : Timing) (random : ByteSupply) :
    create timing random = .ok (Machine.create timing random) := by
  rw [create, reset_eq, ok_bind, pure_eq_ok]
  rfl

theorem load_eq (machine : Machine) (program : List UInt8) :
    load machine program = .ok (machine.loadReport program) := by
  have hstart : Memory.programStart = 512 := rfl
  have hcapacity : Memory.programCapacity = 3584 := rfl
  by_cases hp : program.length ≤ Memory.programCapacity
  · rw [load, if_neg (Nat.not_lt.2 hp), reset_eq, ok_bind, add_of_lt (by omega), ok_bind, copy_of_le rfl (by omega),
      ok_bind, pure_eq_ok, Machine.loadReport_of_le hp]
    rfl
  · rw [load, if_pos (Nat.not_le.1 hp), pure_eq_ok, Machine.loadReport_of_lt (Nat.not_le.1 hp)]

theorem perform_eq (h : machine.Bounded) (command : Command) :
    perform machine command = .ok (machine.perform command) := by
  cases command with
  | step => rw [perform, step_eq h]; rfl
  | tick events => rw [perform, tick_eq h]; rfl
  | setKey event =>
    rw [perform, setKey_eq, ok_bind, Machine.perform]
    cases machine.keypad.apply event <;> rfl
  | setKeys down => rw [perform, setAll_eq]; rfl
  | load program => rw [perform, load_eq]; rfl
  | loadRom rom => rw [perform, load_eq]; rfl
  | reset => rw [perform, reset_eq]; rfl
  | tickTimers | enqueue _ | supply _ => rfl

/-! ### Reachable machines -/

/-- Whatever a host does with a machine, no check fails, and what comes out is what comes out without them. -/
theorem no_mishap :
    (∀ timing random, create timing random = .ok (Machine.create timing random)) ∧
      ∀ machine : Machine, machine.Reachable →
        (∀ command, perform machine command = .ok (machine.perform command)) ∧
          dump machine = .ok machine.dump ∧
          (∀ key, isPressed machine.keypad key = .ok (machine.keypad.isPressed key)) ∧
          ∀ x y, pixel? machine.screen x y = .ok (machine.screen.pixel? x y) := by
  refine ⟨create_eq, fun machine hr => ⟨perform_eq hr.bounded, dump_eq machine, ?_, ?_⟩⟩
  · exact isPressed_eq machine.keypad
  · exact pixel?_eq machine.screen

/-- A machine about to draw a glyph of which only the upper left pixel is on the screen. -/
theorem no_mishap_corner :
    let machine := (Machine.create .perStep {}).machine.after
      [.load [0x60, 0x3F, 0x61, 0x1F, 0xA0, 0x50, 0xD0, 0x15], .step, .step, .step]
    perform machine .step = .ok (machine.perform .step) ∧ dump machine = .ok machine.dump := by
  intro machine
  have hr : machine.Reachable := (Machine.Reachable.create .perStep {}).after _
  exact ⟨(no_mishap.2 machine hr).1 .step, (no_mishap.2 machine hr).2.1⟩

end Chip8.Guarded
