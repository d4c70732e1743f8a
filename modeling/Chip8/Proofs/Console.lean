import Chip8.Console.Command
import Chip8.Proofs.Framebuffer
import Chip8.Proofs.Keyboard

/-!
# Consoles and machines

A console and the machine that it realizes (`Console.Realizes`) do the same: they have the common parts in common, the
screen and the keypad are what the devices stand for, and the supply of the machine begins with the bytes that the
generator is going to hand out.  An instruction uses up at most one of these, so `n + 1` of them before a command leave
`n` behind it (`Console.Realizes.perform`).  A session therefore goes the same way on both, with any generator
(`Console.performAll_create`), and what holds of all reachable machines holds of all reachable consoles.

Realizing a machine takes devices that are in order, and each operation leaves them so.  This is the part of
`Console.Valid` that does not follow from the machine.
-/

namespace Chip8

/-- Whether the instruction deals with a device. -/
def Instruction.usesDevice : Instruction → Bool
  | clear | random .. | draw .. | skipKeyDown _ | skipKeyUp _ | awaitKey _ => true
  | _ => false

namespace Console

/-- The machine whose screen and keypad are those of the devices, with a supply of random bytes. -/
def machine (console : Console) (random : ByteSupply) : Machine :=
  { console.core with
    random
    screen := console.framebuffer.screen
    keypad := console.keyboard.keypad }

theorem execute_machine {instruction : Instruction} (h : ¬instruction.usesDevice) (console : Console)
    (random : ByteSupply) :
    (console.machine random).execute instruction =
      (console.core.execute instruction).map fun effect =>
        { effect with machine := (console.adopt effect.machine).machine random } := by
  cases instruction
  case clear | random | draw | skipKeyDown | skipKeyUp | awaitKey => exact absurd rfl h
  case ret =>
    simp only [Machine.execute, machine, core]
    cases console.stack <;> rfl
  case call nnn =>
    have hstack : (console.machine random).stack = console.core.stack := rfl
    by_cases hroom : console.core.stack.length < Machine.stackCapacity
    · rw [Machine.execute, Machine.execute, hstack, if_pos hroom, if_pos hroom]
      rfl
    · rw [Machine.execute, Machine.execute, hstack, if_neg hroom, if_neg hroom]
      rfl
  case arithmetic op x y =>
    simp only [Machine.execute, Machine.calculate, Machine.register, machine, core]
    cases op.flag? console.registers[x.val] console.registers[y.val] <;> rfl
  case storeDecimal x =>
    simp only [Machine.execute, Machine.register, machine, core]
    cases console.memory.store console.index.toNat (Machine.decimalDigits console.registers[x.val]) <;> rfl
  case storeRegisters x =>
    simp only [Machine.execute, machine, core]
    cases console.memory.store console.index.toNat (console.registers.toList.take (x.val + 1)) <;> rfl
  case loadRegisters x =>
    simp only [Machine.execute, machine, core]
    cases console.memory.read console.index.toNat (x.val + 1) <;> rfl
  all_goals rfl

/-! ### Agreement -/

/-- The console is the machine, its devices are in order, and the next `n` random bytes of both are the same. -/
inductive Realizes (console : Console) : Machine → Nat → Prop
  | intro {n : Nat} (random : ByteSupply) (byte_eq : ∀ k < n, random.generator.byte k = console.generator.byte k)
      (binary : console.framebuffer.Binary) (orderly : console.keyboard.Orderly) :
      Realizes console (console.machine random) n

structure Effect.Realizes (effect : Effect) (other : Chip8.Effect) (n : Nat) : Prop where
  console : effect.console.Realizes other.machine n
  advance_eq : effect.advance = other.advance
  outcome_eq : effect.outcome = other.outcome
  log_eq : effect.log = other.log

/-- Both fail with one fault, or both succeed and agree. -/
inductive Alike {α β : Type} (agree : α → β → Prop) : Except Fault α → Except Fault β → Prop
  | error (fault : Fault) : Alike agree (.error fault) (.error fault)
  | ok {value : α} {other : β} (h : agree value other) : Alike agree (.ok value) (.ok other)

variable {console : Console} {n : Nat}

theorem Realizes.of_eq {machine : Machine} (random : ByteSupply) (hm : machine = console.machine random)
    (hr : ∀ k < n, random.generator.byte k = console.generator.byte k) (hb : console.framebuffer.Binary)
    (ho : console.keyboard.Orderly) : console.Realizes machine n :=
  hm ▸ .intro random hr hb ho

/-! ### Instructions -/

theorem execute_of_not_usesDevice {instruction : Instruction} (h : ¬instruction.usesDevice) (console : Console) :
    console.execute instruction =
      (console.core.execute instruction).map fun effect =>
        { console := console.adopt effect.machine
          advance := effect.advance
          outcome := effect.outcome
          log := effect.log } := by
  cases instruction
  case clear | random | draw | skipKeyDown | skipKeyUp | awaitKey => exact absurd rfl h
  all_goals rfl

section Execute

variable (console) {random : ByteSupply} (hr : ∀ k < n + 1, random.generator.byte k = console.generator.byte k)
  (hb : console.framebuffer.Binary) (ho : console.keyboard.Orderly)

include hr hb ho

theorem drawSprite_alike (x y : Register) (rows : Fin 16) :
    Alike (Realizes · · n) (console.drawSprite x y rows.val) ((console.machine random).drawSprite x y rows.val) := by
  have hread : (console.machine random).memory.read (console.machine random).index.toNat rows.val =
    console.memory.read console.index.toNat rows.val := rfl
  rw [drawSprite, Machine.drawSprite, hread]
  cases hbytes : console.memory.read console.index.toNat rows.val with
  | error fault => exact .error fault
  | ok bytes =>
    have hl : bytes.length < 32 := by
      rw [Memory.length_of_read hbytes]
      omega
    let column : Fin 64 := .ofNat 64 (console.register x).toNat
    let row : Fin 32 := .ofNat 32 (console.register y).toNat
    let drawn := Framebuffer.drawRows column.val row.val bytes 0 { framebuffer := console.framebuffer }
    have hcanvas : drawn.canvas = _ := Framebuffer.canvas_drawRows hb column row hl
    refine .ok (.of_eq random ?_ (fun k hk => hr k (by omega)) (hb.drawRows column row hl) ho)
    change _ = { console.machine random with screen := drawn.canvas.screen }.setRegister Machine.flagRegister
      drawn.canvas.collided.toUInt8
    rw [hcanvas]
    rfl

theorem awaitKey_realizes (x : Register) :
    (console.awaitKey x).Realizes ((console.machine random).awaitKey x) n := by
  have hrest : ∀ k < n, random.generator.byte k = console.generator.byte k := fun k hk => hr k (by omega)
  obtain ⟨htake, hlt, horderly⟩ := Keyboard.takePress_keypad ho
  have hmachine : (console.machine random).keypad.takePress = _ := htake
  rw [awaitKey, Machine.awaitKey, hmachine]
  generalize console.keyboard.takePress = taken at hlt horderly
  obtain ⟨_ | key, keyboard⟩ := taken
  · exact ⟨.intro random hrest hb horderly, rfl, rfl, rfl⟩
  · have hkey : (Fin.ofNat 16 key).val = key := Nat.mod_eq_of_lt (hlt key rfl)
    refine ⟨.of_eq random ?_ hrest hb horderly, rfl, rfl, rfl⟩
    simp only [Option.map_some, hkey]
    rfl

theorem execute_alike (instruction : Instruction) :
    Alike (Effect.Realizes · · n) (console.execute instruction) ((console.machine random).execute instruction) := by
  have hrest : ∀ k < n, random.generator.byte k = console.generator.byte k := fun k hk => hr k (by omega)
  by_cases hu : instruction.usesDevice
  · cases instruction
    case clear =>
      have hclear : console.framebuffer.clear.screen = .blank := by
        rw [Framebuffer.clear_eq_new, Framebuffer.screen_new]
      have hbinary : console.framebuffer.clear.Binary := by
        rw [Framebuffer.clear_eq_new]
        exact Framebuffer.binary_new
      refine .ok ⟨.of_eq random ?_ hrest hbinary ho, rfl, rfl, rfl⟩
      exact (congrArg (fun screen => { console.machine random with screen }) hclear).symm
    case random x nn =>
      have hpeek : random.peek = console.generator.peek := hr 0 (Nat.succ_pos n)
      refine .ok ⟨.of_eq random.rest ?_ (fun k hk => hr (k + 1) (by omega)) hb ho, rfl, rfl, rfl⟩
      rw [← hpeek]
      rfl
    case draw x y rows =>
      have hdraw := drawSprite_alike console hr hb ho x y rows
      rw [execute, Machine.execute]
      generalize console.drawSprite x y rows.val = drawn at hdraw ⊢
      generalize (console.machine random).drawSprite x y rows.val = other at hdraw ⊢
      cases hdraw with
      | error fault => exact .error fault
      | ok h => exact .ok ⟨h, rfl, rfl, rfl⟩
    case skipKeyDown x | skipKeyUp x =>
      have hpressed := console.keyboard.isPressed_keypad (console.register x).toNat
      rw [execute, ← hpressed]
      exact .ok ⟨.intro random hrest hb ho, rfl, rfl, rfl⟩
    case awaitKey x => exact .ok (awaitKey_realizes console hr hb ho x)
    all_goals cases hu
  · rw [execute_machine hu, execute_of_not_usesDevice hu]
    cases console.core.execute instruction with
    | error fault => exact .error fault
    | ok effect => exact .ok ⟨.intro random hrest hb ho, rfl, rfl, rfl⟩

end Execute

/-! ### Steps -/

/-- The reports agree, once the answer has been read as one of a machine. -/
structure Report.Realizes {α β : Type} (read : α → β) (report : Report α) (other : Chip8.Report β) (n : Nat) :
    Prop where
  console : report.console.Realizes other.machine n
  answer_eq : read report.answer = other.answer
  log_eq : report.log = other.log

theorem Effect.Realizes.settled {effect : Effect} {other : Chip8.Effect} (h : effect.Realizes other n) :
    effect.settled.Realizes other.settled n := by
  obtain ⟨machine, advance, outcome, log⟩ := other
  obtain ⟨hconsole, rfl, rfl, rfl⟩ := h
  cases hconsole with
  | intro random hr hb ho => exact .intro random hr hb ho

/-- The reply of a machine, which shows the screen in the framebuffer. -/
def Reply.onScreen : Reply → Chip8.Reply
  | done => .done
  | failed fault => .failed fault
  | stepped outcome shown => .stepped outcome (shown.map Framebuffer.screen)

namespace Realizes

variable {machine : Machine}

theorem of_le {m : Nat} (h : console.Realizes machine n) (hm : m ≤ n) : console.Realizes machine m := by
  cases h with
  | intro random hr hb ho => exact .intro random (fun k hk => hr k (by omega)) hb ho

theorem dispatch (h : console.Realizes machine (n + 1)) (opcode : Opcode) :
    (console.dispatch opcode).Realizes id (machine.dispatch opcode) n := by
  have hrest := h.of_le (Nat.le_succ n)
  cases h with
  | intro random hr hb ho =>
    cases hd : Instruction.decode? opcode with
    | none =>
      simp only [Console.dispatch, Machine.dispatch, hd]
      exact ⟨.intro random (fun k hk => hr k (by omega)) hb ho, rfl, rfl⟩
    | some instruction =>
      have hfetched : { console.machine random with counter := Advance.skip.apply (console.machine random).counter } =
          { console with counter := Advance.skip.apply console.counter }.machine random := rfl
      have he := execute_alike { console with counter := Advance.skip.apply console.counter } hr hb ho instruction
      simp only [Console.dispatch, Machine.dispatch, hd, hfetched]
      generalize Console.execute _ instruction = result at he ⊢
      generalize Machine.execute _ instruction = other at he ⊢
      cases he with
      | error fault => exact ⟨hrest, rfl, rfl⟩
      | ok h => exact ⟨h.settled, congrArg Except.ok h.outcome_eq, congrArg (_ :: ·) h.log_eq⟩

theorem cycle (h : console.Realizes machine (n + 1)) : console.cycle.Realizes id machine.cycle n := by
  have hrest := h.of_le (Nat.le_succ n)
  have hread : Opcode.read machine.memory.toArray machine.counter.toNat =
      Opcode.read console.memory.toArray console.counter.toNat := by cases h; rfl
  have hcounter : machine.counter = console.counter := by cases h; rfl
  rw [Console.cycle, Machine.cycle, hread, hcounter]
  cases Opcode.read console.memory.toArray console.counter.toNat with
  | error fault => exact ⟨hrest, rfl, rfl⟩
  | ok opcode =>
    have hd := h.dispatch opcode
    exact ⟨hd.console, hd.answer_eq, congrArg (_ :: ·) hd.log_eq⟩

theorem elapse (h : console.Realizes machine n) : console.elapse.Realizes machine.elapse n := by
  cases h with
  | intro random hr hb ho =>
    have htiming : (console.machine random).timing = console.timing := rfl
    rw [Console.elapse, Machine.elapse, htiming]
    cases console.timing <;> exact .intro random hr hb ho

theorem with_keyboard (h : console.Realizes machine n) {keyboard : Keyboard} {keypad : Keypad}
    (hk : keyboard.keypad = keypad) (ho : keyboard.Orderly) :
    { console with keyboard }.Realizes { machine with keypad } n := by
  subst hk
  cases h with
  | intro random hr hb _ => exact .intro random hr hb ho

theorem with_pending (h : console.Realizes machine n) (pending : List KeyEvent) :
    { console with pending }.Realizes { machine with pending } n := by
  cases h with
  | intro random hr hb ho => exact .intro random hr hb ho

theorem orderly (h : console.Realizes machine n) : console.keyboard.Orderly := by
  cases h with
  | intro _ _ _ ho => exact ho

theorem keypad_eq (h : console.Realizes machine n) : machine.keypad = console.keyboard.keypad := by
  cases h
  rfl

theorem screen_eq (h : console.Realizes machine n) : machine.screen = console.framebuffer.screen := by
  cases h
  rfl

theorem pending_eq (h : console.Realizes machine n) : machine.pending = console.pending := by
  cases h
  rfl

theorem heedAll (h : console.Realizes machine n) (events : List KeyEvent) :
    { console with keyboard := console.keyboard.heedAll events }.Realizes
      { machine with keypad := machine.keypad.heedAll events } n := by
  obtain ⟨hk, ho⟩ := Keyboard.heedAll_keypad h.orderly events
  rw [h.keypad_eq]
  exact h.with_keyboard hk ho

theorem step (h : console.Realizes machine (n + 1)) : console.step.Realizes id machine.step n := by
  have hfed := (h.heedAll console.pending).with_pending []
  rw [← h.pending_eq] at hfed
  have hc : Report.Realizes id _ machine.applyPending.cycle n := hfed.cycle
  rw [Console.step, Machine.step, ← h.pending_eq]
  refine ⟨?_, hc.answer_eq, congrArg (_ ++ ·) hc.log_eq⟩
  rw [← hc.answer_eq]
  dsimp only [id]
  split
  · exact hc.console.elapse
  · exact hc.console

theorem tick (h : console.Realizes machine (n + 1)) (events : List KeyEvent) :
    (console.tick events).Realizes id (machine.tick events) n := by
  have hs := (h.heedAll events).step
  exact ⟨hs.console, hs.answer_eq, congrArg (_ ++ ·) hs.log_eq⟩

/-! ### Commands -/

theorem new (timing : Timing) {generator : Generator} {random : ByteSupply}
    (hr : ∀ k < n, random.generator.byte k = generator.byte k) :
    Realizes { timing, generator } { timing, random } n := by
  refine .of_eq random ?_ hr Framebuffer.binary_new Keyboard.orderly_new
  have hmachine : Console.machine { timing, generator } random =
      { timing, random, screen := Framebuffer.screen {}, keypad := Keyboard.keypad {} } := rfl
  rw [hmachine, Framebuffer.screen_new, Keyboard.keypad_new]
  rfl

theorem reset (h : console.Realizes machine n) : console.reset.Realizes machine.reset n := by
  cases h with
  | intro random hr _ _ =>
    rw [Console.reset, Framebuffer.clear_eq_new, Keyboard.reset_eq_new]
    exact .new console.timing hr

theorem load (h : console.Realizes machine n) (program : List UInt8) :
    (console.load program).Realizes Reply.onScreen (machine.loadReport program) n := by
  by_cases hp : program.length ≤ Memory.programCapacity
  · rw [Console.load, if_pos hp, Machine.loadReport_of_le hp]
    refine ⟨?_, rfl, rfl⟩
    have hreset := h.reset
    generalize console.reset = fresh at hreset ⊢
    generalize machine.reset = other at hreset ⊢
    cases hreset with
    | intro random hr hb ho => exact .intro random hr hb ho
  · rw [Console.load, if_neg hp, Machine.loadReport_of_lt (Nat.not_le.1 hp)]
    exact ⟨h, rfl, rfl⟩

end Realizes

namespace Report.Realizes

variable {report : Report (Except Fault Outcome)} {other : Chip8.Report (Except Fault Outcome)}
  (h : report.Realizes id other n)

include h

theorem shown_eq : report.shown.map Framebuffer.screen = other.shown := by
  have hanswer : report.answer = other.answer := h.answer_eq
  rw [Report.shown, Chip8.Report.shown, hanswer, h.console.screen_eq]
  cases other.answer with
  | ok outcome => cases outcome <;> rfl
  | error fault => rfl

theorem toReply {shown : Option Framebuffer} {screen : Option Screen} (hs : shown.map Framebuffer.screen = screen) :
    (report.toReply shown).Realizes Reply.onScreen (other.toReply screen) n := by
  have hanswer : report.answer = other.answer := h.answer_eq
  rw [Report.toReply, Chip8.Report.toReply, hanswer]
  cases other.answer with
  | ok outcome => exact ⟨h.console, congrArg (Chip8.Reply.stepped outcome) hs, h.log_eq⟩
  | error fault => exact ⟨h.console, rfl, h.log_eq⟩

end Report.Realizes

namespace Realizes

variable {machine : Machine}

/-- A command takes one random byte at most. -/
theorem perform (h : console.Realizes machine (n + 1)) (command : Command) :
    (console.perform command).Realizes Reply.onScreen (machine.perform command) n := by
  have hrest := h.of_le (Nat.le_succ n)
  cases command with
  | step => exact h.step.toReply rfl
  | tick events => exact (h.tick events).toReply (h.tick events).shown_eq
  | tickTimers =>
    refine ⟨?_, rfl, rfl⟩
    cases hrest with
    | intro random hr hb ho => exact .intro random hr hb ho
  | setKey event =>
    have hk := console.keyboard.keypad_setKey event
    rw [Console.perform, Machine.perform, h.keypad_eq, ← hk]
    cases hs : console.keyboard.setKey event with
    | error fault => exact ⟨hrest, rfl, rfl⟩
    | ok changed => exact ⟨hrest.with_keyboard rfl (h.orderly.setKey hs), rfl, rfl⟩
  | setKeys down =>
    obtain ⟨hk, ho⟩ := Keyboard.setAll_keypad h.orderly (.ofFn down.has)
    rw [KeySet.ofKeys_ofFn_has, ← h.keypad_eq] at hk
    exact ⟨hrest.with_keyboard hk ho, rfl, rfl⟩
  | enqueue events =>
    rw [Console.perform, ← h.pending_eq]
    exact ⟨hrest.with_pending _, rfl, rfl⟩
  | load program => exact hrest.load program
  | loadRom rom =>
    have hl := hrest.load rom.bytes
    exact ⟨hl.console, hl.answer_eq, congrArg (_ :: ·) hl.log_eq⟩
  | reset => exact ⟨hrest.reset, rfl, rfl⟩
  | supply random =>
    refine ⟨?_, rfl, rfl⟩
    cases hrest with
    | intro _ _ hb ho => exact .intro random (fun _ _ => rfl) hb ho

end Realizes

/-! ### Sessions -/

/-- On a console that realizes a machine a session gives the reports of the machine, if the supply of the machine has as
many bytes of the generator as there are commands. -/
theorem Realizes.performAll {machine : Machine} {commands : List Command}
    (h : console.Realizes machine commands.length) :
    List.Forall₂ (Report.Realizes Reply.onScreen · · 0) (console.performAll commands)
      (machine.performAll commands) := by
  induction commands generalizing console machine with
  | nil => exact .nil
  | cons command rest ih =>
    have hp := h.perform command
    exact .cons ⟨hp.console.of_le (Nat.zero_le _), hp.answer_eq, hp.log_eq⟩ (ih hp.console)

theorem realizes_create (timing : Timing) {generator : Generator} {random : ByteSupply}
    (hr : ∀ k < n, random.generator.byte k = generator.byte k) :
    (create timing generator).console.Realizes (Machine.create timing random).machine n :=
  (Realizes.new timing hr).reset

/-- Whatever state a generator begins with and however it goes on from there, every session gives the reports that a
machine gives with a supply of the bytes that come out of it. -/
theorem performAll_create {σ : Type} (next : σ → UInt8 × σ) (state : σ) (timing : Timing) (commands : List Command) :
    let generator := Generator.ofState next state
    List.Forall₂ (Report.Realizes Reply.onScreen · · 0)
      ((create timing generator).console.performAll commands)
      ((Machine.create timing (generator.supply commands.length)).machine.performAll commands) :=
  (realizes_create timing fun _ hk => Generator.byte_generator_supply _ hk).performAll

/-! ### Reachable consoles -/

/-- The consoles that come from a new one by commands, whether they fail or not. -/
inductive Reachable : Console → Prop
  | create (timing : Timing) (generator : Generator) : Reachable (create timing generator).console
  | perform {console : Console} (command : Command) (h : Reachable console) :
      Reachable (console.perform command).console

theorem Reachable.after {console : Console} (h : console.Reachable) (commands : List Command) :
    (console.after commands).Reachable := by
  induction commands generalizing console with
  | nil => exact h
  | cons command rest ih => exact ih (h.perform command)

/-- A reachable console realizes a reachable machine. -/
theorem Reachable.exists_realizes {console : Console} (h : console.Reachable) (n : Nat) :
    ∃ machine, machine.Reachable ∧ console.Realizes machine n := by
  induction h generalizing n with
  | create timing generator =>
    exact ⟨_, .create timing (generator.supply n),
      realizes_create timing fun _ hk => Generator.byte_generator_supply _ hk⟩
  | perform command _ ih =>
    obtain ⟨machine, hm, hr⟩ := ih (n + 1)
    exact ⟨_, hm.perform command, (hr.perform command).console⟩

/-- Every reachable machine is realized by a reachable console. -/
theorem exists_realizes_of_reachable {machine : Machine} (h : machine.Reachable) :
    ∃ console : Console, console.Reachable ∧ ∀ n, console.Realizes machine n := by
  induction h with
  | create timing random =>
    exact ⟨_, .create timing random.generator, fun n => realizes_create timing fun _ _ => rfl⟩
  | perform command _ ih =>
    obtain ⟨console, hc, hr⟩ := ih
    exact ⟨_, hc.perform command, fun n => ((hr (n + 1)).perform command).console⟩

/-! ### Validity -/

structure Valid (console : Console) : Prop where
  counter_lt : console.counter.toNat < 4096
  index_lt : console.index.toNat < 4096
  length_stack_le : console.stack.length ≤ 16
  stack_lt : ∀ address ∈ console.stack, address.toNat < 4096
  pixels : ∀ value ∈ console.framebuffer.pixels, value = 0 ∨ value = 1
  last_lt : ∀ record, console.keyboard.last = some record → record.index < 16
  presses_eq_zero : console.keyboard.awaiting = false → console.keyboard.presses = 0

/-- However a host and a program treat a console, it stays valid, and it is a reachable machine with its devices. -/
theorem Reachable.valid {console : Console} (h : console.Reachable) :
    console.Valid ∧ ∃ random, (console.machine random).Reachable := by
  obtain ⟨machine, hm, hr⟩ := h.exists_realizes 0
  cases hr with
  | intro random _ hb ho =>
    have hbounded := hm.bounded
    exact ⟨⟨hbounded.counter_lt, hbounded.index_lt, hbounded.length_stack_le, hbounded.stack_lt, hb, ho.last_lt,
      ho.presses_eq_zero⟩, random, hm⟩

/-- A sprite is drawn twice, a press is awaited, a key that does not exist is written to and another one is pressed;
then the wait ends. -/
theorem valid_after_wait :
    let generator := Generator.ofState (fun state : UInt8 => (state, state + 1)) 7
    let console := (create .external generator).console.after
      [.load [0xA0, 0x55, 0xD0, 0x01, 0xD0, 0x01, 0xF1, 0x0A], .step, .step, .step, .step, .setKey ⟨16, true⟩,
        .setKey ⟨7, true⟩]
    console.keyboard.awaiting = true ∧ console.keyboard.presses = 0x80 ∧ console.Valid ∧
      (console.after [.step]).register 1 = 7 ∧ (console.after [.step]).keyboard.presses = 0 := by
  intro generator console
  have hreachable : console.Reachable := (Reachable.create .external generator).after _
  obtain ⟨hawaiting, hpresses, hregister, hended⟩ :
      console.keyboard.awaiting = true ∧ console.keyboard.presses = 0x80 ∧
        (console.after [.step]).register 1 = 7 ∧ (console.after [.step]).keyboard.awaiting = false := by
    decide +kernel
  clear_value console
  have hlater := (Reachable.valid (hreachable.after [.step])).1
  exact ⟨hawaiting, hpresses, hreachable.valid.1, hregister, hlater.presses_eq_zero hended⟩

end Console

end Chip8
