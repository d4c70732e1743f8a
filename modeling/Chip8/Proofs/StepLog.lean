import Chip8.Proofs.Frame
import Chip8.Proofs.Reachable
import Chip8.Proofs.Spelling

/-!
# The log of a step

A step writes its lines in a fixed order: one for each key event that is dropped, one for the fetch, one for the
decoding, and then at most one of the instruction itself.  The lines of an instruction (`Machine.Remark`), those behind
the fetch (`Machine.Decoding`) and those behind the key events (`Machine.Trail`) are described from the inside out, each
with what it tells of the machine before and after.  How an instruction is called there is told by the tables of
`Opcode.Spelled`.
-/

namespace Chip8

/-! ### Lines -/

namespace LogRecord

section Openings

/-! The level and the first words of a message are one text in front of what the record tells. -/

variable {record : LogRecord} {opening words a b c : String} (ho : record.level.name ++ " " ++ words = opening)

include ho

theorem line_of_message (hm : record.message = words ++ a) : record.line = opening ++ a := by
  rw [line, hm, ← ho]
  exact String.append_assoc.symm

theorem line_of_message_two (hm : record.message = words ++ a ++ b) : record.line = opening ++ a ++ b :=
  (line_of_message ho (hm.trans String.append_assoc)).trans String.append_assoc.symm

theorem line_of_message_three (hm : record.message = words ++ a ++ b ++ c) : record.line = opening ++ a ++ b ++ c :=
  (line_of_message_two ho (hm.trans String.append_assoc)).trans String.append_assoc.symm

end Openings

theorem line_keyDropped (event : KeyEvent) :
    (keyDropped event).line = "WARN dropping key event " ++ event.term ++ ": " ++ event.fault.reason :=
  line_of_message_three (show "WARN" ++ " " ++ "dropping key event " = "WARN dropping key event " by decide) rfl

theorem line_fetched (opcode : Opcode) (address : UInt16) :
    (fetched opcode address).line =
      "TRACE opcode " ++ Hexadecimal.text 4 opcode.toNat ++ " at " ++ Hexadecimal.text 4 address.toNat :=
  line_of_message_three (show "TRACE" ++ " " ++ "opcode " = "TRACE opcode " by decide) rfl

theorem line_unsupported (opcode : Opcode) (address : UInt16) :
    (unsupported opcode address).line =
      "WARN An unsupported opcode was used " ++ Hexadecimal.text 4 opcode.toNat ++ " at "
        ++ Hexadecimal.text 4 address.toNat :=
  line_of_message_three
    (show "WARN" ++ " " ++ "An unsupported opcode was used " = "WARN An unsupported opcode was used " by decide) rfl

theorem line_executing (instruction : Instruction) :
    (executing instruction).line = "TRACE executing " ++ instruction.text :=
  line_of_message (show "TRACE" ++ " " ++ "executing " = "TRACE executing " by decide) rfl

theorem line_routineIgnored (nnn : Address) :
    (routineIgnored nnn).line = "TRACE ignoring machine code routine at " ++ Hexadecimal.text 3 nnn.val :=
  line_of_message
    (show "TRACE" ++ " " ++ "ignoring machine code routine at " = "TRACE ignoring machine code routine at " by decide)
    rfl

theorem line_returned (address : UInt16) :
    (returned address).line = "DEBUG return to " ++ Hexadecimal.text 4 address.toNat :=
  line_of_message (show "DEBUG" ++ " " ++ "return to " = "DEBUG return to " by decide) rfl

theorem line_called (nnn : Address) (depth : Nat) :
    (called nnn depth).line = "DEBUG call " ++ Hexadecimal.text 4 nnn.val ++ ", depth " ++ depth.repr :=
  line_of_message_three (show "DEBUG" ++ " " ++ "call " = "DEBUG call " by decide) rfl

theorem line_keyTaken (key : Key) :
    (keyTaken key).line = "DEBUG key " ++ Hexadecimal.text 1 key.val ++ " pressed while waiting" :=
  line_of_message_two (show "DEBUG" ++ " " ++ "key " = "DEBUG key " by decide) rfl

end LogRecord

theorem KeyEvent.invalid_eq (events : List KeyEvent) : invalid events = events.filter (16 ≤ ·.key) := by
  apply List.filter_congr
  intro event _
  by_cases h : event.key < 16
  · simp [target?, h]
  · simp [target?, h, Nat.not_lt.1 h]

/-- Whether the instruction has a line of its own. -/
def Instruction.remarks : Instruction → Bool
  | .routine _ | .ret | .call _ | .awaitKey _ => true
  | _ => false

namespace Machine

/-! ### The instruction -/

/-- The lines of an instruction that completed: which stack it found, which press there was to take, and what machine it
left. -/
inductive Remark (stack : List UInt16) (press : Option Key) (after : Machine) : Instruction → List String → Prop
  | routine (nnn : Address) :
      Remark stack press after (.routine nnn)
        ["TRACE ignoring machine code routine at " ++ Hexadecimal.text 3 nnn.val]
  | ret {address : UInt16} (popped : stack = address :: after.stack) (moved : after.counter = address) :
      Remark stack press after .ret ["DEBUG return to " ++ Hexadecimal.text 4 address.toNat]
  | call (nnn : Address) (pushed : after.stack.length = stack.length + 1) :
      Remark stack press after (.call nnn)
        ["DEBUG call " ++ Hexadecimal.text 4 nnn.val ++ ", depth " ++ after.stack.length.repr]
  | taken {x : Register} {key : Key} (pressed : press = some key) (stored : (after.register x).toNat = key.val) :
      Remark stack press after (.awaitKey x)
        ["DEBUG key " ++ Hexadecimal.text 1 key.val ++ " pressed while waiting"]
  | waiting {x : Register} (idle : press = none) : Remark stack press after (.awaitKey x) []
  | silent {instruction : Instruction} (quiet : ¬instruction.remarks) : Remark stack press after instruction []

theorem remark_of_execute {machine : Machine} {instruction : Instruction} {effect : Effect}
    (hb : ∀ address ∈ machine.stack, address.toNat < 4096) (h : machine.execute instruction = .ok effect)
    (delay sound : Timer) :
    Remark machine.stack machine.keypad.takePress.1 { effect.settled with delay, sound } instruction
      (effect.log.map LogRecord.line) := by
  cases instruction
  case routine nnn =>
    cases h
    rw [List.map_singleton, LogRecord.line_routineIgnored]
    exact .routine nnn
  case ret =>
    simp only [execute] at h
    split at h
    · cases h
    · rename_i address rest hs
      cases h
      have hlt : address.toNat < 4096 := hb address (by simp [hs])
      have hsame : address % 4096 = address := by
        apply UInt16.toNat_inj.1
        rw [UInt16.toNat_mod]
        exact Nat.mod_eq_of_lt hlt
      rw [List.map_singleton, LogRecord.line_returned]
      exact .ret hs hsame
  case call nnn =>
    simp only [execute] at h
    split at h <;> cases h
    rw [List.map_singleton, LogRecord.line_called]
    exact .call nnn rfl
  case awaitKey x =>
    cases h
    rcases hp : machine.keypad.takePress with ⟨_ | key, keypad⟩
    · simp only [awaitKey, hp]
      exact .waiting rfl
    · have hstored : ({ machine with keypad }.setRegister x (.ofNat key.val)).register x = .ofNat key.val :=
        (register_setRegister _ _ _ _).trans (if_pos rfl)
      have hvalue : (UInt8.ofNat key.val).toNat = key.val := by
        rw [UInt8.toNat_ofNat']
        omega
      simp only [awaitKey, hp]
      rw [List.map_singleton, LogRecord.line_keyTaken]
      exact .taken rfl ((congrArg UInt8.toNat hstored).trans hvalue)
  case draw x y n | storeDecimal x | storeRegisters x | loadRegisters x =>
    obtain ⟨_, -, rfl⟩ := map_eq_ok_iff.1 h
    exact .silent Bool.noConfusion
  all_goals
    cases h
    exact .silent Bool.noConfusion

/-! ### The step -/

/-- The lines of a step behind the one of its fetch. -/
inductive Decoding (machine : Machine) (command : Command) (opcode : Opcode) : List String → Prop
  | unsupported (decodes : Instruction.decode? opcode = none) (unspelled : ∀ text, ¬opcode.Spelled text) :
      Decoding machine command opcode
        ["WARN An unsupported opcode was used " ++ Hexadecimal.text 4 opcode.toNat ++ " at "
          ++ Hexadecimal.text 4 (machine.advanced.counter - 2).toNat]
  | failed {instruction : Instruction} {text : String} {fault : Fault}
      (decodes : Instruction.decode? opcode = some instruction) (spelled : opcode.Spelled text)
      (answer : (machine.perform command).answer = .failed fault) :
      Decoding machine command opcode ["TRACE executing " ++ text]
  | completed {instruction : Instruction} {text : String} {outcome : Outcome} {shown : Option Screen}
      {lines : List String} (decodes : Instruction.decode? opcode = some instruction) (spelled : opcode.Spelled text)
      (answer : (machine.perform command).answer = .stepped outcome shown)
      (remark : Remark machine.stack (machine.heeded command).keypad.takePress.1 (machine.perform command).machine
        instruction lines) :
      Decoding machine command opcode (("TRACE executing " ++ text) :: lines)

/-- The lines of a step behind those of its key events. -/
inductive Trail (machine : Machine) (command : Command) : List String → Prop
  | outside (last : machine.counter = 0xFFF) : Trail machine command []
  | fetched {opcode : Opcode} {lines : List String} (fetches : machine.Fetches opcode)
      (decoding : machine.Decoding command opcode lines) :
      Trail machine command
        (("TRACE opcode " ++ Hexadecimal.text 4 opcode.toNat ++ " at "
          ++ Hexadecimal.text 4 machine.counter.toNat) :: lines)

theorem lines_dropped (events : List KeyEvent) :
    (dropped events).map LogRecord.line =
      (events.filter (16 ≤ ·.key)).map fun event =>
        "WARN dropping key event " ++ event.term ++ ": " ++ event.fault.reason := by
  rw [dropped, KeyEvent.invalid_eq, List.map_map]
  exact List.map_congr_left fun event _ => LogRecord.line_keyDropped event

section Steps

variable {machine : Machine} {command : Command} (hr : machine.Reachable) (hs : command.steps)

include hr hs

theorem decoding_of_dispatch {opcode : Opcode} (hf : machine.Fetches opcode) :
    machine.Decoding command opcode (((machine.heeded command).dispatch opcode).log.map LogRecord.line) := by
  have hfetch : (machine.heeded command).Fetches opcode := fetches_heeded.2 hf
  cases hd : Instruction.decode? opcode with
  | none =>
    have hcounter : (machine.heeded command).advanced.counter = machine.advanced.counter :=
      congrArg Advance.skip.apply (machine.counter_heeded command)
    rw [dispatch_of_decode?_eq_none hd, List.map_singleton, LogRecord.line_unsupported, hcounter]
    refine .unsupported hd fun text hspelled => ?_
    obtain ⟨instruction, hsome, -⟩ := Opcode.spelled_iff.1 hspelled
    exact absurd (hd.symm.trans hsome) nofun
  | some instruction =>
    have hspelled : opcode.Spelled instruction.text := Opcode.spelled_iff.2 ⟨instruction, hd, rfl⟩
    cases he : (machine.heeded command).advanced.execute instruction with
    | error fault =>
      have hcycle : (machine.heeded command).cycle.answer = .error fault := by
        rw [cycle_of_fetches hfetch, dispatch_of_execute_eq_error hd he]
      rw [dispatch_of_execute_eq_error hd he, List.map_singleton, LogRecord.line_executing]
      exact .failed hd hspelled (answer_perform_of_error hs hcycle)
    | ok effect =>
      obtain ⟨shown, hanswer, -⟩ := answer_perform_of_ok hs (cycle_heeded_of_execute hf hd he).1
      have hstack : (machine.heeded command).advanced.stack = machine.stack := machine.stack_heeded command
      have hbound : ∀ address ∈ (machine.heeded command).advanced.stack, address.toNat < 4096 := by
        rw [hstack]
        exact hr.bounded.stack_lt
      rw [dispatch_of_execute_eq_ok hd he, List.map_cons, LogRecord.line_executing]
      refine .completed hd hspelled hanswer ?_
      rw [machine_perform_of_execute hf hd he hs, elapse_eq, ← hstack]
      exact remark_of_execute hbound he _ _

theorem trail_of_cycle : machine.Trail command ((machine.heeded command).cycle.log.map LogRecord.line) := by
  by_cases h : machine.counter.toNat + 1 < 4096
  · obtain ⟨opcode, hf⟩ := exists_fetches h
    rw [cycle_of_fetches (fetches_heeded.2 hf), List.map_cons, LogRecord.line_fetched, counter_heeded]
    exact .fetched hf (decoding_of_dispatch hr hs hf)
  · have hlast : machine.counter.toNat = 0xFFF := by
      have hlt := hr.bounded.counter_lt
      omega
    have houtside : 4096 ≤ (machine.heeded command).counter.toNat + 1 := by
      rw [counter_heeded]
      omega
    rw [cycle_of_le houtside]
    exact .outside (UInt16.toNat_inj.1 hlast)

end Steps

/-- The log of a step, for any number of pending key events, any instruction and any end of the step: a line for each
event whose key does not exist, in their order, and then the lines of the fetch, the decoding and the instruction. -/
theorem lines_perform_of_steps {machine : Machine} {command : Command} (hr : machine.Reachable) (hs : command.steps) :
    ∃ trail,
      (machine.perform command).log.map LogRecord.line =
        ((machine.heard command).filter (16 ≤ ·.key)).map
          (fun event => "WARN dropping key event " ++ event.term ++ ": " ++ event.fault.reason) ++ trail ∧
      machine.Trail command trail := by
  refine ⟨_, ?_, trail_of_cycle hr hs⟩
  rw [log_perform_of_steps hs, List.map_append, lines_dropped]

/-- The trail of an instruction that completes. -/
theorem Trail.exists_remark {machine : Machine} {command : Command} {trail : List String} {opcode : Opcode}
    {instruction : Instruction} (h : machine.Trail command trail) (hs : command.steps) (hf : machine.Fetches opcode)
    (hd : Instruction.decode? opcode = some instruction) (hok : (machine.heeded command).cycle.answer.isOk) :
    ∃ lines,
      Remark machine.stack (machine.heeded command).keypad.takePress.1 (machine.perform command).machine instruction
        lines ∧
      trail =
        ("TRACE opcode " ++ Hexadecimal.text 4 opcode.toNat ++ " at " ++ Hexadecimal.text 4 machine.counter.toNat) ::
          ("TRACE executing " ++ instruction.text) :: lines := by
  cases h with
  | outside last =>
    obtain ⟨hlt, -⟩ := hf
    rw [last] at hlt
    exact absurd hlt (by decide)
  | fetched fetches decoding =>
    cases fetches.unique hf
    cases decoding with
    | unsupported decodes => cases hd.symm.trans decodes
    | failed _ _ answer =>
      rw [answer_cycle_of_failed hs answer] at hok
      cases hok
    | completed decodes spelled _ remark =>
      cases hd.symm.trans decodes
      obtain ⟨other, hother, rfl⟩ := Opcode.spelled_iff.1 spelled
      cases hd.symm.trans hother
      exact ⟨_, remark, rfl⟩

/-- The trail of an opcode that is unknown. -/
theorem Trail.eq_of_decode?_eq_none {machine : Machine} {command : Command} {trail : List String} {opcode : Opcode}
    (h : machine.Trail command trail) (hf : machine.Fetches opcode) (hd : Instruction.decode? opcode = none) :
    trail =
      ["TRACE opcode " ++ Hexadecimal.text 4 opcode.toNat ++ " at " ++ Hexadecimal.text 4 machine.counter.toNat,
        "WARN An unsupported opcode was used " ++ Hexadecimal.text 4 opcode.toNat ++ " at "
          ++ Hexadecimal.text 4 (machine.advanced.counter - 2).toNat] := by
  cases h with
  | outside last =>
    obtain ⟨hlt, -⟩ := hf
    rw [last] at hlt
    exact absurd hlt (by decide)
  | fetched fetches decoding =>
    cases fetches.unique hf
    cases decoding with
    | unsupported => rfl
    | failed decodes | completed decodes => cases hd.symm.trans decodes

/-- A call, a drawing, a return behind three key events of which two are dropped, and an opcode that is unknown. -/
theorem lines_perform_of_steps_subroutine :
    let called := (create .perStep {}).machine.after [.load [0x22, 0x04, 0x50, 0x01, 0xD1, 0x23, 0x00, 0xEE]]
    let drawn := called.after [.step]
    let returned := drawn.after [.step, .enqueue [⟨16, true⟩, ⟨3, true⟩, ⟨99, false⟩]]
    let unknown := returned.after [.step]
    (called.perform .step).log.map LogRecord.line =
        ["TRACE opcode 0x2204 at 0x0200", "TRACE executing Call \x7b nnn: 516 \x7d", "DEBUG call 0x0204, depth 1"] ∧
      (drawn.perform .step).log.map LogRecord.line =
        ["TRACE opcode 0xD123 at 0x0204", "TRACE executing Draw \x7b x: 1, y: 2, n: 3 \x7d"] ∧
      (returned.perform .step).log.map LogRecord.line =
        ["WARN dropping key event KeyEvent \x7b key: 16, pressed: true \x7d: There is no key with the index 0x10.",
          "WARN dropping key event KeyEvent \x7b key: 99, pressed: false \x7d: There is no key with the index 0x63.",
          "TRACE opcode 0x00EE at 0x0206", "TRACE executing Return", "DEBUG return to 0x0202"] ∧
      (unknown.perform .step).log.map LogRecord.line =
        ["TRACE opcode 0x5001 at 0x0202", "WARN An unsupported opcode was used 0x5001 at 0x0202"] := by
  intro called drawn returned unknown
  have hreachable : called.Reachable := (Reachable.create .perStep {}).after _
  have hs : Command.step.steps := rfl
  refine ⟨?call, ?draw, ?ret, ?unknown⟩
  case call =>
    obtain ⟨hcounter, hhigh, hlow, hpending, hok, hstack⟩ :
        called.counter.toNat = 0x200 ∧ called.memory[0x200] = 0x22 ∧ called.memory[0x201] = 0x04 ∧
          called.pending = [] ∧ (called.heeded .step).cycle.answer.isOk ∧ called.stack = [] := by
      decide +kernel
    have hf : called.Fetches 0x2204 := fetches_of_bytes hcounter (by decide) hhigh hlow (by decide)
    clear_value called
    obtain ⟨trail, hlog, htrail⟩ := lines_perform_of_steps hreachable hs
    obtain ⟨lines, hremark, rfl⟩ := htrail.exists_remark hs hf (show _ = some (.call 0x204) by decide) hok
    rw [hlog, heard, hpending, hcounter]
    cases hremark with
    | call _ pushed =>
      rw [pushed, hstack]
      decide +kernel
    | silent quiet => exact absurd rfl quiet
  case draw =>
    obtain ⟨hcounter, hhigh, hlow, hpending, hok⟩ :
        drawn.counter.toNat = 0x204 ∧ drawn.memory[0x204] = 0xD1 ∧ drawn.memory[0x205] = 0x23 ∧
          drawn.pending = [] ∧ (drawn.heeded .step).cycle.answer.isOk := by
      decide +kernel
    have hf : drawn.Fetches 0xD123 := fetches_of_bytes hcounter (by decide) hhigh hlow (by decide)
    have hr : drawn.Reachable := hreachable.after _
    clear_value drawn
    obtain ⟨trail, hlog, htrail⟩ := lines_perform_of_steps hr hs
    obtain ⟨lines, hremark, rfl⟩ := htrail.exists_remark hs hf (show _ = some (.draw 1 2 3) by decide) hok
    rw [hlog, heard, hpending, hcounter]
    cases hremark
    decide +kernel
  case ret =>
    obtain ⟨hcounter, hhigh, hlow, hpending, hok, hstack⟩ :
        returned.counter.toNat = 0x206 ∧ returned.memory[0x206] = 0x00 ∧ returned.memory[0x207] = 0xEE ∧
          returned.pending = [⟨16, true⟩, ⟨3, true⟩, ⟨99, false⟩] ∧ (returned.heeded .step).cycle.answer.isOk ∧
          returned.stack = [0x202] := by
      decide +kernel
    have hf : returned.Fetches 0x00EE := fetches_of_bytes hcounter (by decide) hhigh hlow (by decide)
    have hr : returned.Reachable := (hreachable.after _).after _
    clear_value returned
    obtain ⟨trail, hlog, htrail⟩ := lines_perform_of_steps hr hs
    obtain ⟨lines, hremark, rfl⟩ := htrail.exists_remark hs hf (show _ = some .ret by decide) hok
    rw [hlog, heard, hpending, hcounter]
    cases hremark with
    | ret popped =>
      rw [← (List.cons.inj (hstack.symm.trans popped)).1]
      decide +kernel
    | silent quiet => exact absurd rfl quiet
  case unknown =>
    obtain ⟨hcounter, hhigh, hlow, hpending⟩ :
        unknown.counter = 0x202 ∧ unknown.memory[0x202] = 0x50 ∧ unknown.memory[0x203] = 0x01 ∧
          unknown.pending = [] := by
      decide +kernel
    have hf : unknown.Fetches 0x5001 :=
      fetches_of_bytes (congrArg UInt16.toNat hcounter) (by decide) hhigh hlow (by decide)
    have hr : unknown.Reachable := ((hreachable.after _).after _).after _
    have hadvanced : unknown.advanced.counter = Advance.skip.apply 0x202 := congrArg Advance.skip.apply hcounter
    clear_value unknown
    obtain ⟨trail, hlog, htrail⟩ := lines_perform_of_steps hr hs
    rw [hlog, htrail.eq_of_decode?_eq_none hf (by decide), heard, hpending, hadvanced, hcounter]
    decide +kernel

end Machine

end Chip8
