import Chip8.Proofs.Frame

/-!
# Between registers and memory

Three instructions move bytes between the registers and the cells from the index on: one stores the registers up to a
last one, one loads them, and one stores the decimal digits of a register.  Each of them writes the cells or registers
that it is about and no other (`Machine.perform_storeRegisters` and its neighbours).  So a load undoes a store and a
store undoes a load, for as many registers as both of them are about.
-/

namespace Chip8

namespace Memory

theorem getElem?_write_of_outside {memory : Memory} {start a : Nat} {bytes : List UInt8}
    (h : a < start ∨ start + bytes.length ≤ a) : (memory.write start bytes)[a]? = memory[a]? := by
  by_cases ha : a < 4096
  · rw [Vector.getElem?_eq_getElem ha, Vector.getElem?_eq_getElem ha, getElem_write]
    rcases h with h | h
    · rw [if_pos h]
    · rw [if_neg (by omega), List.getD_eq_default _ _ (by omega)]
  · rw [Vector.getElem?_eq_none (by omega), Vector.getElem?_eq_none (by omega)]

theorem getElem?_write_add {memory : Memory} {start k : Nat} {bytes : List UInt8}
    (h : start + bytes.length ≤ 4096) (hk : k < bytes.length) :
    (memory.write start bytes)[start + k]? = bytes[k]? := by
  rw [Vector.getElem?_eq_getElem (by omega), getElem_write_add _ _ _ (by omega), List.getD_eq_getElem _ _ hk,
    List.getElem?_eq_getElem hk]

/-- Bytes that stand in the memory already change nothing when they are written there. -/
theorem write_eq_self {memory : Memory} {start : Nat} {bytes : List UInt8} (h : start + bytes.length ≤ 4096)
    (hsame : ∀ k < bytes.length, memory[start + k]? = bytes[k]?) : memory.write start bytes = memory := by
  have hcell : ∀ a : Nat, (memory.write start bytes)[a]? = memory[a]? := by
    intro a
    by_cases ha : a < start ∨ start + bytes.length ≤ a
    · exact getElem?_write_of_outside ha
    · obtain ⟨k, rfl⟩ : ∃ k, a = start + k := ⟨a - start, by omega⟩
      have hk : k < bytes.length := by omega
      rw [getElem?_write_add h hk, hsame k hk]
  apply Vector.ext
  intro a ha
  have hsome := hcell a
  rw [Vector.getElem?_eq_getElem ha, Vector.getElem?_eq_getElem ha] at hsome
  exact Option.some.inj hsome

theorem getElem?_of_read {memory : Memory} {start length k : Nat} {bytes : List UInt8}
    (h : memory.read start length = .ok bytes) (hk : k < length) : bytes[k]? = memory[start + k]? := by
  rw [read] at h
  split at h
  · cases h
    rw [List.getElem?_ofFn, dif_pos hk, Vector.getElem?_eq_getElem (by omega)]
  · cases h

end Memory

namespace Machine

theorem getElem?_take_registers (machine : Machine) {x k : Register} (h : k ≤ x) :
    (machine.registers.toList.take (x.val + 1))[k.val]? = some (machine.register k) := by
  have hk : k.val < x.val + 1 := Nat.lt_succ_of_le h
  rw [List.getElem?_take_of_lt hk, Vector.getElem?_toList, Vector.getElem?_eq_getElem k.isLt, register]

theorem register_fillRegisters (machine : Machine) (bytes : List UInt8) (k : Register) :
    (machine.fillRegisters bytes).register k = bytes.getD k.val (machine.register k) := by
  simp only [register, fillRegisters, Vector.getElem_ofFn]

/-- Both machines have the same index, and the same bytes in the cells from there up to the one `last` further on. -/
structure SameCells (machine other : Machine) (last : Nat) : Prop where
  index_eq : other.index = machine.index
  cell_eq : ∀ k ≤ last, other.memory[other.index.toNat + k]? = machine.memory[machine.index.toNat + k]?

theorem SameCells.refl (machine : Machine) (last : Nat) : machine.SameCells machine last :=
  ⟨rfl, fun _ _ => rfl⟩

/-! ### Steps -/

section Steps

variable {machine : Machine} {x : Register} {command : Command} (hs : command.steps)

include hs

/-- A step that stores bytes from the index on, if there is room for them. -/
theorem perform_of_store {instruction : Instruction} {bytes : List UInt8} (hf : machine.Fetches instruction.encode)
    (hd : Instruction.decode? instruction.encode = some instruction)
    (he : ∀ counter keypad pending, { machine with counter, keypad, pending }.execute instruction =
      (machine.memory.store machine.index.toNat bytes).map fun memory =>
        { machine := { machine with counter, keypad, pending, memory } })
    (hin : machine.index.toNat + bytes.length ≤ 4096) :
    (machine.perform command).answer = .stepped .plain none ∧
      (machine.perform command).machine.index = machine.index ∧
      (machine.perform command).machine.registers = machine.registers ∧
      (machine.perform command).machine.memory = machine.memory.write machine.index.toNat bytes := by
  have hwrites : ∀ counter keypad pending, { machine with counter, keypad, pending }.execute instruction =
      .ok { machine :=
        { machine with
          counter, keypad, pending, memory := machine.memory.write machine.index.toNat bytes
          registers := machine.registers } } := by
    intro counter keypad pending
    rw [he, Memory.store_eq_ok hin]
    rfl
  obtain ⟨hanswer, _, _, _, _, _, hm⟩ := perform_of_execute_writes hs hf hd hwrites
  rw [hm]
  exact ⟨hanswer, rfl, rfl, rfl⟩

theorem perform_storeRegisters (hf : machine.Fetches (Instruction.storeRegisters x).encode)
    (hin : machine.index.toNat + x.val < 4096) :
    (machine.perform command).answer = .stepped .plain none ∧
      (machine.perform command).machine.index = machine.index ∧
      (machine.perform command).machine.registers = machine.registers ∧
      (machine.perform command).machine.memory =
        machine.memory.write machine.index.toNat (machine.registers.toList.take (x.val + 1)) := by
  have hd : Instruction.decode? (Instruction.storeRegisters x).encode = some (.storeRegisters x) :=
    Instruction.decode?_encode_of_ne fun _ => Instruction.noConfusion
  have hlength := machine.length_take_registers x
  exact perform_of_store hs hf hd (fun _ _ _ => rfl) (by omega)

theorem perform_storeDecimal (hf : machine.Fetches (Instruction.storeDecimal x).encode)
    (hin : machine.index.toNat + 2 < 4096) :
    (machine.perform command).answer = .stepped .plain none ∧
      (machine.perform command).machine.index = machine.index ∧
      (machine.perform command).machine.registers = machine.registers ∧
      (machine.perform command).machine.memory =
        machine.memory.write machine.index.toNat (decimalDigits (machine.register x)) := by
  have hd : Instruction.decode? (Instruction.storeDecimal x).encode = some (.storeDecimal x) :=
    Instruction.decode?_encode_of_ne fun _ => Instruction.noConfusion
  exact perform_of_store hs hf hd (fun _ _ _ => rfl) hin

theorem perform_loadRegisters (hf : machine.Fetches (Instruction.loadRegisters x).encode)
    (hin : machine.index.toNat + x.val < 4096) :
    (machine.perform command).answer = .stepped .plain none ∧
      (machine.perform command).machine.index = machine.index ∧
      (machine.perform command).machine.memory = machine.memory ∧
      (∀ k, k ≤ x → some ((machine.perform command).machine.register k) =
        machine.memory[machine.index.toNat + k.val]?) ∧
      ∀ k, x < k → (machine.perform command).machine.register k = machine.register k := by
  have hd : Instruction.decode? (Instruction.loadRegisters x).encode = some (.loadRegisters x) :=
    Instruction.decode?_encode_of_ne fun _ => Instruction.noConfusion
  obtain ⟨bytes, hread⟩ : ∃ bytes, machine.memory.read machine.index.toNat (x.val + 1) = .ok bytes :=
    ⟨_, Memory.read_eq_ok hin⟩
  have hlength := Memory.length_of_read hread
  have hwrites : ∀ counter keypad pending, { machine with counter, keypad, pending }.execute (.loadRegisters x) =
      .ok { machine :=
        { machine with
          counter, keypad, pending, memory := machine.memory
          registers := (machine.fillRegisters bytes).registers } } := by
    intro counter keypad pending
    rw [execute, hread]
    rfl
  obtain ⟨hanswer, _, _, _, _, _, hm⟩ := perform_of_execute_writes hs hf hd hwrites
  have hregister : ∀ k, (machine.perform command).machine.register k = bytes.getD k.val (machine.register k) := by
    intro k
    rw [hm, ← register_fillRegisters]
    rfl
  refine ⟨hanswer, by rw [hm], by rw [hm], ?_, ?_⟩
  · intro k hk
    have hlt : k.val < bytes.length := by
      rw [hlength]
      exact Nat.lt_succ_of_le hk
    rw [hregister, List.getD_eq_getElem _ _ hlt, ← List.getElem?_eq_getElem hlt,
      Memory.getElem?_of_read hread (Nat.lt_succ_of_le hk)]
  · intro k hk
    have hge : bytes.length ≤ k.val := by
      rw [hlength]
      exact hk
    rw [hregister, List.getD_eq_default _ _ hge]

/-! ### The cells that a store writes -/

theorem cells_perform_storeRegisters (hf : machine.Fetches (Instruction.storeRegisters x).encode)
    (hin : machine.index.toNat + x.val < 4096) :
    (∀ k, k ≤ x → (machine.perform command).machine.memory[machine.index.toNat + k.val]? = some (machine.register k)) ∧
      ∀ a : Nat, a < machine.index.toNat ∨ machine.index.toNat + x.val < a →
        (machine.perform command).machine.memory[a]? = machine.memory[a]? := by
  obtain ⟨-, -, -, hmemory⟩ := perform_storeRegisters hs hf hin
  have hlength := machine.length_take_registers x
  rw [hmemory]
  constructor
  · intro k hk
    have hlt : k.val < x.val + 1 := Nat.lt_succ_of_le hk
    rw [Memory.getElem?_write_add (by omega) (by omega), getElem?_take_registers machine hk]
  · intro a ha
    exact Memory.getElem?_write_of_outside (by omega)

theorem cells_perform_storeDecimal (hf : machine.Fetches (Instruction.storeDecimal x).encode)
    (hin : machine.index.toNat + 2 < 4096) :
    (∀ k < 3, (machine.perform command).machine.memory[machine.index.toNat + k]? =
        (decimalDigits (machine.register x))[k]?) ∧
      ∀ a : Nat, a < machine.index.toNat ∨ machine.index.toNat + 2 < a →
        (machine.perform command).machine.memory[a]? = machine.memory[a]? := by
  obtain ⟨-, -, -, hmemory⟩ := perform_storeDecimal hs hf hin
  have hlength := length_decimalDigits (machine.register x)
  rw [hmemory]
  constructor
  · intro k hk
    exact Memory.getElem?_write_add (by omega) (by omega)
  · intro a ha
    exact Memory.getElem?_write_of_outside (by omega)

end Steps

/-! ### Back and forth -/

section Pairs

variable {machine again : Machine} {x : Register} {command other : Command} (hs : command.steps) (hs' : other.steps)

include hs hs'

/-- What was stored is loaded again, whatever has become of the registers since. -/
theorem register_load_of_store {x' : Register} (hf : machine.Fetches (Instruction.storeRegisters x).encode)
    (hin : machine.index.toNat + x.val < 4096)
    (h : (machine.perform command).machine.SameCells again (min x.val x'.val))
    (hf' : again.Fetches (Instruction.loadRegisters x').encode) (hin' : machine.index.toNat + x'.val < 4096) :
    ∀ k, k ≤ x → k ≤ x' → (again.perform other).machine.register k = machine.register k := by
  obtain ⟨-, hindex, -, -⟩ := perform_storeRegisters hs hf hin
  have hindex' : again.index = machine.index := h.index_eq.trans hindex
  obtain ⟨-, -, -, hloaded, -⟩ := perform_loadRegisters hs' hf' (by rwa [hindex'])
  intro k hk hk'
  apply Option.some.inj
  rw [hloaded k hk', h.cell_eq k.val (Nat.le_min.2 ⟨hk, hk'⟩), hindex, (cells_perform_storeRegisters hs hf hin).1 k hk]

/-- A load that is about the same registers brings all of them back, if the others are as they were. -/
theorem registers_load_of_store (hf : machine.Fetches (Instruction.storeRegisters x).encode)
    (hin : machine.index.toNat + x.val < 4096) (h : (machine.perform command).machine.SameCells again x.val)
    (hothers : ∀ k, x < k → again.register k = machine.register k)
    (hf' : again.Fetches (Instruction.loadRegisters x).encode) :
    (again.perform other).machine.registers = machine.registers := by
  obtain ⟨-, hindex, -, -⟩ := perform_storeRegisters hs hf hin
  have hindex' : again.index = machine.index := h.index_eq.trans hindex
  obtain ⟨-, -, -, -, hrest⟩ := perform_loadRegisters hs' hf' (by rwa [hindex'])
  rw [← Nat.min_self x.val] at h
  apply Vector.ext
  intro k hk
  by_cases hle : (⟨k, hk⟩ : Register) ≤ x
  · exact register_load_of_store hs hs' hf hin h hf' hin ⟨k, hk⟩ hle hle
  · have hlt := Fin.not_le.1 hle
    exact (hrest ⟨k, hk⟩ hlt).trans (hothers ⟨k, hk⟩ hlt)

/-- Storing what was loaded changes no cell. -/
theorem memory_store_of_load (hf : machine.Fetches (Instruction.loadRegisters x).encode)
    (hin : machine.index.toNat + x.val < 4096) (h : (machine.perform command).machine.SameCells again x.val)
    (hregister : ∀ k, k ≤ x → again.register k = (machine.perform command).machine.register k)
    (hf' : again.Fetches (Instruction.storeRegisters x).encode) :
    (again.perform other).machine.memory = again.memory := by
  obtain ⟨-, hindex, hmemory, hloaded, -⟩ := perform_loadRegisters hs hf hin
  have hindex' : again.index = machine.index := h.index_eq.trans hindex
  have hlength := again.length_take_registers x
  obtain ⟨-, -, -, hstored⟩ := perform_storeRegisters hs' hf' (by rwa [hindex'])
  rw [hstored]
  apply Memory.write_eq_self (by rw [hindex']; omega)
  intro k hk
  obtain ⟨register, rfl⟩ : ∃ register : Register, register.val = k := ⟨⟨k, by omega⟩, rfl⟩
  rw [hlength] at hk
  have hle : register ≤ x := Nat.le_of_lt_succ hk
  rw [h.cell_eq register.val hle, hindex, hmemory, ← hloaded register hle, ← hregister register hle,
    getElem?_take_registers again hle]

end Pairs

/-- Three digits stand for a byte. -/
theorem decimalDigits_eq (value : UInt8) : ∃ hundreds tens ones : UInt8,
    decimalDigits value = [hundreds, tens, ones] ∧ hundreds.toNat < 10 ∧ tens.toNat < 10 ∧ ones.toNat < 10 ∧
      100 * hundreds.toNat + 10 * tens.toNat + ones.toNat = value.toNat := by
  have h := value.toNat_lt
  refine ⟨_, _, _, rfl, ?_⟩
  simp only [UInt8.toNat_div, UInt8.toNat_mod, UInt8.reduceToNat]
  omega

/-- As long as the cells from the index on are there, storing the registers up to `x`, loading them and storing the
decimal digits of one of them always complete; they write what they are about and nothing else, and leave the index
where it is.  A load finds what was stored, in all registers that both are about, and brings back all of them if it is
about the same and the others are as they were.  Storing what was loaded changes nothing. -/
theorem store_and_load {machine : Machine} {x : Register} {command : Command} (hs : command.steps) :
    let later := (machine.perform command).machine
    (machine.Fetches (Opcode.ofByte 0xF x 0x55) → machine.index.toNat + x.val < 4096 →
      (machine.perform command).answer = .stepped .plain none ∧ later.index = machine.index ∧
      later.registers = machine.registers ∧
      (∀ k, k ≤ x → later.memory[machine.index.toNat + k.val]? = some (machine.register k)) ∧
      (∀ a : Nat, a < machine.index.toNat ∨ machine.index.toNat + x.val < a → later.memory[a]? = machine.memory[a]?) ∧
      ∀ (again : Machine) (x' : Register) (other : Command), later.SameCells again (min x.val x'.val) → other.steps →
        again.Fetches (Opcode.ofByte 0xF x' 0x65) → machine.index.toNat + x'.val < 4096 →
        (∀ k, k ≤ x → k ≤ x' → (again.perform other).machine.register k = machine.register k) ∧
        (x' = x → (∀ k, x < k → again.register k = machine.register k) →
          (again.perform other).machine.registers = machine.registers)) ∧
    (machine.Fetches (Opcode.ofByte 0xF x 0x65) → machine.index.toNat + x.val < 4096 →
      (machine.perform command).answer = .stepped .plain none ∧ later.index = machine.index ∧
      later.memory = machine.memory ∧
      (∀ k, k ≤ x → some (later.register k) = machine.memory[machine.index.toNat + k.val]?) ∧
      (∀ k, x < k → later.register k = machine.register k) ∧
      ∀ (again : Machine) (other : Command), later.SameCells again x.val →
        (∀ k, k ≤ x → again.register k = later.register k) → other.steps →
        again.Fetches (Opcode.ofByte 0xF x 0x55) → (again.perform other).machine.memory = again.memory) ∧
    (machine.Fetches (Opcode.ofByte 0xF x 0x33) → machine.index.toNat + 2 < 4096 →
      (machine.perform command).answer = .stepped .plain none ∧ later.index = machine.index ∧
      later.registers = machine.registers ∧
      (∃ hundreds tens ones : UInt8, hundreds.toNat < 10 ∧ tens.toNat < 10 ∧ ones.toNat < 10 ∧
        100 * hundreds.toNat + 10 * tens.toNat + ones.toNat = (machine.register x).toNat ∧
        later.memory[machine.index.toNat]? = some hundreds ∧ later.memory[machine.index.toNat + 1]? = some tens ∧
        later.memory[machine.index.toNat + 2]? = some ones) ∧
      ∀ a : Nat, a < machine.index.toNat ∨ machine.index.toNat + 2 < a → later.memory[a]? = machine.memory[a]?) := by
  intro later
  refine ⟨?store, ?load, ?digits⟩
  case store =>
    intro hf hin
    obtain ⟨hanswer, hindex, hregisters, -⟩ := perform_storeRegisters hs hf hin
    obtain ⟨hcells, houtside⟩ := cells_perform_storeRegisters hs hf hin
    refine ⟨hanswer, hindex, hregisters, hcells, houtside, ?_⟩
    intro again x' other hsame hs' hf' hin'
    refine ⟨register_load_of_store hs hs' hf hin hsame hf' hin', ?_⟩
    rintro rfl hothers
    rw [Nat.min_self] at hsame
    exact registers_load_of_store hs hs' hf hin hsame hothers hf'
  case load =>
    intro hf hin
    obtain ⟨hanswer, hindex, hmemory, hloaded, hrest⟩ := perform_loadRegisters hs hf hin
    refine ⟨hanswer, hindex, hmemory, hloaded, hrest, ?_⟩
    intro again other hsame hregister hs' hf'
    exact memory_store_of_load hs hs' hf hin hsame hregister hf'
  case digits =>
    intro hf hin
    obtain ⟨hanswer, hindex, hregisters, -⟩ := perform_storeDecimal hs hf hin
    obtain ⟨hcells, houtside⟩ := cells_perform_storeDecimal hs hf hin
    obtain ⟨hundreds, tens, ones, hdigits, hhundreds, htens, hones, hvalue⟩ := decimalDigits_eq (machine.register x)
    rw [hdigits] at hcells
    exact ⟨hanswer, hindex, hregisters, ⟨hundreds, tens, ones, hhundreds, htens, hones, hvalue, hcells 0 (by decide),
      hcells 1 (by decide), hcells 2 (by decide)⟩, houtside⟩

/-- Three registers are stored in the last cells of the memory, one of them is changed, two are loaded and stored again,
and at last the digits of the third one are stored. -/
theorem store_and_load_last :
    let machine := ((create .perStep {}).machine.perform (.load
      [0x60, 0x07, 0x61, 0xF6, 0x62, 0x9C, 0xAF, 0xFD, 0xF2, 0x55, 0x60, 0x00, 0xF1, 0x65, 0xF1, 0x55,
        0xF2, 0x33])).machine
    let storing := machine.after [.step, .step, .step, .step]
    let stored := (storing.perform .step).machine
    let loading := stored.after [.step]
    let loaded := (loading.perform (.tick [⟨3, true⟩])).machine
    let counting := loaded.after [.step]
    (stored.memory[0xFFD]? = some 0x07 ∧ stored.memory[0xFFF]? = some 0x9C) ∧
      (loading.register 0 = 0 ∧ loaded.register 0 = 7 ∧ loaded.register 1 = 0xF6) ∧
      (loaded.perform .step).machine.memory = loaded.memory ∧
      (counting.perform .step).machine.memory[0xFFE]? = some 5 := by
  intro machine storing stored loading loaded counting
  obtain ⟨⟨hstore, hstorehigh, hstorelow, hindex, hseven, hmiddle, hlast⟩,
      ⟨⟨hload, hloadhigh, hloadlow, hindex', hzero⟩, hsame⟩, ⟨hagain, hagainhigh, hagainlow⟩,
      hcount, hcounthigh, hcountlow, hindex'', hvalue⟩ :
      (storing.counter.toNat = 0x208 ∧ storing.memory[0x208] = 0xF2 ∧ storing.memory[0x209] = 0x55 ∧
          storing.index.toNat = 0xFFD ∧ storing.register 0 = 0x07 ∧ storing.register 1 = 0xF6 ∧
          storing.register 2 = 0x9C) ∧
        ((loading.counter.toNat = 0x20C ∧ loading.memory[0x20C] = 0xF1 ∧ loading.memory[0x20D] = 0x65 ∧
            loading.index.toNat = 0xFFD ∧ loading.register 0 = 0) ∧
          loading.index = stored.index ∧
          ∀ k ≤ 1, loading.memory[loading.index.toNat + k]? = stored.memory[stored.index.toNat + k]?) ∧
        (loaded.counter.toNat = 0x20E ∧ loaded.memory[0x20E] = 0xF1 ∧ loaded.memory[0x20F] = 0x55) ∧
        counting.counter.toNat = 0x210 ∧ counting.memory[0x210] = 0xF2 ∧ counting.memory[0x211] = 0x33 ∧
          counting.index.toNat = 0xFFD ∧ (counting.register 2).toNat = 156 := by
    decide +kernel
  clear_value counting loading storing
  have hstoring : storing.Fetches (Opcode.ofByte 0xF 2 0x55) :=
    fetches_of_bytes hstore (by decide) hstorehigh hstorelow (by decide)
  have hloading : loading.Fetches (Opcode.ofByte 0xF 1 0x65) :=
    fetches_of_bytes hload (by decide) hloadhigh hloadlow (by decide)
  have hstoring' : loaded.Fetches (Opcode.ofByte 0xF 1 0x55) :=
    fetches_of_bytes hagain (by decide) hagainhigh hagainlow (by decide)
  have hcounting : counting.Fetches (Opcode.ofByte 0xF 2 0x33) :=
    fetches_of_bytes hcount (by decide) hcounthigh hcountlow (by decide)
  have hstep : Command.step.steps := rfl
  have htick : (Command.tick [⟨3, true⟩]).steps := rfl
  obtain ⟨-, -, -, hwritten, -, hpair⟩ := (store_and_load hstep).1 hstoring (by rw [hindex]; decide)
  obtain ⟨hrestored, -⟩ :=
    hpair loading 1 (.tick [⟨3, true⟩]) ⟨hsame.1, hsame.2⟩ htick hloading (by rw [hindex]; decide)
  obtain ⟨-, -, -, -, -, hunchanged⟩ := (store_and_load htick).2.1 hloading (by rw [hindex']; decide)
  obtain ⟨-, -, -, ⟨hundreds, tens, ones, hhundreds, htens, hones, hsum, -, hcell, -⟩, -⟩ :=
    (store_and_load hstep).2.2 hcounting (by rw [hindex'']; decide)
  refine ⟨⟨?_, ?_⟩, ⟨hzero, ?_, ?_⟩, ?_, ?_⟩
  · rw [← hseven, ← hwritten 0 (by decide), hindex]
    rfl
  · rw [← hlast, ← hwritten 2 (by decide), hindex]
    rfl
  · rw [← hseven]
    exact hrestored 0 (by decide) (by decide)
  · rw [← hmiddle]
    exact hrestored 1 (by decide) (by decide)
  · exact hunchanged loaded .step (.refl loaded 1) (fun _ _ => rfl) hstep hstoring'
  · have hfive : tens = 5 := by
      apply UInt8.toNat_inj.1
      rw [hvalue] at hsum
      change tens.toNat = 5
      omega
    rw [← hfive, ← hcell, hindex'']

end Machine

end Chip8
