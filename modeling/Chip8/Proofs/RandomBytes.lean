import Chip8.Proofs.Frame

/-!
# Where the random bytes go

Only one instruction takes a random byte, it takes one, and it never fails (`Machine.perform_random`,
`Machine.random_perform_of_not_takesByte`).  Neither a reset nor a load touches the supply.  So its position is the
number of these instructions that ran since it was new (`Machine.random_after`), and that number tells which byte the
next of them gets.
-/

namespace Chip8

/-- A supply that is not empty has a next byte. -/
theorem ByteSupply.getElem?_peek (supply : ByteSupply) (h : 0 < supply.bytes.size) :
    supply.bytes[supply.position % supply.bytes.size]? = some supply.peek := by
  have hlt := Nat.mod_lt supply.position h
  rw [peek, Array.getElem?_eq_getElem hlt, Array.getD_eq_getD_getElem?, Array.getElem?_eq_getElem hlt]
  rfl

theorem Instruction.decode?_random (x : Register) (nn : UInt8) :
    decode? (Opcode.ofByte 0xC x nn.toNat) = some (random x nn) := by
  have hd : decode? (random x nn).encode = some (random x nn) :=
    decode?_encode_of_ne fun _ => Instruction.noConfusion
  exact hd

namespace Machine

/-- The command runs the instruction that takes a random byte. -/
def TakesByte (machine : Machine) (command : Command) : Prop :=
  command.steps ∧ ∃ (x : Register) (nn : UInt8), machine.Fetches (Opcode.ofByte 0xC x nn.toNat)

theorem fetches_iff_at? {machine : Machine} {opcode : Opcode} :
    machine.Fetches opcode ↔ Opcode.at? machine.memory.toArray machine.counter.toNat = some opcode := by
  constructor
  · exact fun hf => Opcode.read_eq_ok_iff.1 (read_of_fetches hf)
  · intro hat
    have hlt : machine.counter.toNat + 1 < machine.memory.toArray.size :=
      Opcode.isSome_at?_iff.1 (Option.isSome_of_mem hat)
    rw [Vector.size_toArray] at hlt
    obtain ⟨other, hf⟩ := exists_fetches hlt
    have hother := Opcode.read_eq_ok_iff.1 (read_of_fetches hf)
    rwa [Option.some.inj (hat.symm.trans hother)]

/-- It is the one instruction of its family. -/
theorem takesByte_iff {machine : Machine} {command : Command} :
    machine.TakesByte command ↔
      command.steps ∧
        ∃ opcode ∈ Opcode.at? machine.memory.toArray machine.counter.toNat, opcode.family.val = 0xC := by
  apply and_congr_right
  intro _
  constructor
  · rintro ⟨x, nn, hf⟩
    exact ⟨_, fetches_iff_at?.1 hf, Opcode.family_ofByte (by decide) nn.toNat_lt x⟩
  · rintro ⟨opcode, hat, hfamily⟩
    refine ⟨opcode.x, opcode.nn, ?_⟩
    rw [Opcode.ofByte_x_nn hfamily]
    exact fetches_iff_at?.2 hat

instance (machine : Machine) (command : Command) : Decidable (machine.TakesByte command) :=
  decidable_of_iff _ takesByte_iff.symm

/-- The number of random bytes that a session takes. -/
def bytesTaken (machine : Machine) : List Command → Nat
  | [] => 0
  | command :: rest =>
    (if machine.TakesByte command then 1 else 0) + (machine.perform command).machine.bytesTaken rest

/-! ### Commands -/

theorem random_elapse (machine : Machine) : machine.elapse.random = machine.random := by
  rw [elapse_eq]

/-- The instruction takes the next byte and completes. -/
theorem perform_random {machine : Machine} {command : Command} (hs : command.steps) {x : Register} {nn : UInt8}
    (hf : machine.Fetches (Opcode.ofByte 0xC x nn.toNat)) :
    (machine.perform command).answer = .stepped .plain none ∧
      (machine.perform command).machine.random = machine.random.rest ∧
      (machine.perform command).machine.register x = machine.random.peek &&& nn := by
  have hd := Instruction.decode?_random x nn
  have he : (machine.heeded command).advanced.execute (.random x nn) = .ok _ := rfl
  refine ⟨answer_perform_of_execute hf hd he hs Outcome.noConfusion, ?_, ?_⟩
  · rw [machine_perform_of_execute hf hd he hs, random_elapse, ← machine.random_heeded command]
    rfl
  · rw [machine_perform_of_execute hf hd he hs, register, registers_elapse, ← machine.random_heeded command,
      UInt8.and_comm]
    exact (register_setRegister _ x x _).trans (if_pos rfl)

/-- No other instruction takes a byte. -/
theorem random_cycle {machine : Machine}
    (h : ∀ (x : Register) (nn : UInt8), ¬machine.Fetches (Opcode.ofByte 0xC x nn.toNat)) :
    machine.cycle.machine.random = machine.random := by
  have hc := machine.cycle_cases
  generalize machine.cycle = report at hc
  cases hc with
  | outside | unsupported | failed => rfl
  | @completed opcode instruction effect fetches decodes executes =>
    have hrandom : effect.machine.random = machine.advanced.randomAfter instruction := by
      rw [machine_of_execute executes]
    refine hrandom.trans ?_
    cases instruction
    case random x nn =>
      rw [← Instruction.encode_of_decode? decodes] at fetches
      exact absurd fetches (h x nn)
    all_goals rfl

/-- Neither does any other command, be it a reset, a load or a step that fails. -/
theorem random_perform_of_not_takesByte {machine : Machine} {command : Command} (h : ¬machine.TakesByte command)
    (hnew : ∀ random, command ≠ .supply random) : (machine.perform command).machine.random = machine.random := by
  by_cases hs : command.steps
  · obtain ⟨delay, sound, hm⟩ := machine_perform_eq_cycle hs machine
    have hf : ∀ (x : Register) (nn : UInt8), ¬(machine.heeded command).Fetches (Opcode.ofByte 0xC x nn.toNat) :=
      fun x nn hf => h ⟨hs, x, nn, fetches_heeded.1 hf⟩
    rw [hm]
    exact (random_cycle hf).trans (machine.random_heeded command)
  · by_cases hr : machine.Restarts command
    · obtain ⟨memory, hm⟩ := machine_perform_of_restarts hr
      rw [hm, reset]
    · cases command with
      | step | tick _ => exact absurd rfl hs
      | load _ | loadRom _ | reset =>
        rw [machine_perform_of_not_restarts _ hr]
        exact Bool.false_ne_true
      | setKey event => rw [machine_perform_setKey]
      | supply random => exact absurd rfl (hnew random)
      | tickTimers | setKeys _ | enqueue _ => rfl

theorem random_perform {machine : Machine} {command : Command} (hnew : ∀ random, command ≠ .supply random) :
    (machine.perform command).machine.random =
      { machine.random with
        position := machine.random.position + if machine.TakesByte command then 1 else 0 } := by
  split
  · rename_i h
    obtain ⟨hs, x, nn, hf⟩ := h
    exact (perform_random hs hf).2.1
  · rename_i h
    exact random_perform_of_not_takesByte h hnew

/-! ### Sessions -/

/-- The supply has handed out the bytes that were taken, and is otherwise the same. -/
theorem random_after {machine : Machine} {commands : List Command} (hnew : ∀ random, .supply random ∉ commands) :
    (machine.after commands).random =
      { machine.random with position := machine.random.position + machine.bytesTaken commands } := by
  induction commands generalizing machine with
  | nil => rfl
  | cons command rest ih =>
    simp only [List.mem_cons, not_or] at hnew
    change ((machine.perform command).machine.after rest).random = _
    rw [ih fun random => (hnew random).2, random_perform fun random => Ne.symm (hnew random).1, bytesTaken]
    simp only [Nat.add_assoc]

/-- A machine with a new supply of bytes, not an empty one, gives them out in their order and from the start again
behind the last.  However a session goes, an instruction that takes a random byte completes: it masks the byte whose
place is the number of those taken before.  Nothing else in the session moves the supply. -/
theorem random_session {machine : Machine} {bytes : Array UInt8} (hm : machine.random = { bytes })
    (hb : 0 < bytes.size) {commands : List Command} (hnew : ∀ random, .supply random ∉ commands) :
    (machine.after commands).random = { bytes, position := machine.bytesTaken commands } ∧
    ∀ earlier command later, commands = earlier ++ command :: later →
      let before := machine.after earlier
      let k := machine.bytesTaken earlier
      (∀ (x : Register) (nn : UInt8), command.steps → before.Fetches (Opcode.ofByte 0xC x nn.toNat) →
        ∃ byte, bytes[k % bytes.size]? = some byte ∧
          (before.perform command).answer = .stepped .plain none ∧
          (before.perform command).machine.register x = byte &&& nn ∧
          (before.perform command).machine.random = { bytes, position := k + 1 }) ∧
      (¬before.TakesByte command → (before.perform command).machine.random = before.random) := by
  have hafter : ∀ commands : List Command, (∀ random, .supply random ∉ commands) →
      (machine.after commands).random = { bytes, position := machine.bytesTaken commands } := by
    intro commands hnew
    rw [random_after hnew, hm]
    simp only [Nat.zero_add]
  refine ⟨hafter commands hnew, ?_⟩
  rintro earlier command later rfl before k
  simp only [List.mem_append, List.mem_cons, not_or] at hnew
  have hbefore : before.random = { bytes, position := k } := hafter earlier fun random => (hnew random).1
  refine ⟨?_, fun h => random_perform_of_not_takesByte h fun random => Ne.symm (hnew random).2.1⟩
  intro x nn hs hf
  obtain ⟨ha, hrandom, hregister⟩ := perform_random hs hf
  have hpeek : bytes[k % bytes.size]? = some before.random.peek := by
    rw [hbefore]
    exact ByteSupply.getElem?_peek { bytes, position := k } hb
  rw [hbefore] at hrandom
  exact ⟨before.random.peek, hpeek, ha, hregister, hrandom⟩

/-- Behind two draws, a return that fails, a reset and a load, the third draw gets the first byte again. -/
theorem random_session_wrap :
    let bytes : Array UInt8 := #[0xA5, 0x3C]
    let machine := (create .perStep { bytes }).machine
    let earlier : List Command :=
      [.load [0xC0, 0xFF, 0xC1, 0x0F, 0x00, 0xEE], .step, .step, .step, .reset, .load [0xC2, 0xF0]]
    machine.bytesTaken earlier = 2 ∧ (machine.after (earlier ++ [.step])).register 2 = 0xA0 ∧
      (machine.after (earlier ++ [.step])).random = { bytes, position := 3 } := by
  intro bytes machine earlier
  obtain ⟨htaken, hcounter, hhigh, hlow⟩ : machine.bytesTaken earlier = 2 ∧
      (machine.after earlier).counter.toNat = 0x200 ∧ (machine.after earlier).memory[0x200] = 0xC2 ∧
      (machine.after earlier).memory[0x201] = 0xF0 := by
    decide +kernel
  have hm : machine.random = { bytes } := rfl
  clear_value machine
  have hf := fetches_of_getElem hcounter (by decide) hhigh hlow
  have hnew : ∀ random, .supply random ∉ earlier ++ [Command.step] := by simp [earlier]
  obtain ⟨byte, hbyte, -, hregister, hrandom⟩ :=
    ((random_session hm (by decide) hnew).2 earlier .step [] rfl).1 2 0xF0 rfl hf
  rw [htaken] at hbyte hrandom
  have hfirst : byte = 0xA5 := by
    rw [show bytes[2 % bytes.size]? = some 0xA5 by decide] at hbyte
    exact (Option.some.inj hbyte).symm
  rw [hfirst, show (0xA5 : UInt8) &&& 0xF0 = 0xA0 by decide] at hregister
  have hafter : machine.after (earlier ++ [.step]) = ((machine.after earlier).perform .step).machine :=
    machine.after_append earlier [.step]
  rw [hafter]
  exact ⟨htaken, hregister, hrandom⟩

end Machine

end Chip8
