import Chip8.Console.Basic
import Chip8.Machine.Command

/-!
# Commands to a console

Steps, resets, loads and the other commands of a host, each on the devices themselves: a step drains the pending key
events into the keyboard, and a reset clears the framebuffer and the keyboard that are there.
-/

namespace Chip8.Console

/-! ### Steps -/

/-- The cycle after the fetch. -/
def dispatch (console : Console) (opcode : Opcode) : Report (Except Fault Outcome) :=
  let fetched := { console with counter := Advance.skip.apply console.counter }
  match Instruction.decode? opcode with
  | none =>
    { console := fetched
      answer := .ok (.unsupported opcode)
      log := [.unsupported opcode (fetched.counter - 2)] }
  | some instruction =>
    match fetched.execute instruction with
    | .error fault => { console, answer := .error fault, log := [.executing instruction] }
    | .ok effect =>
      { console := effect.settled, answer := .ok effect.outcome, log := .executing instruction :: effect.log }

def cycle (console : Console) : Report (Except Fault Outcome) :=
  match Opcode.read console.memory.toArray console.counter.toNat with
  | .error fault => { console, answer := .error fault }
  | .ok opcode =>
    let report := console.dispatch opcode
    { report with log := .fetched opcode console.counter :: report.log }

def tickTimers (console : Console) : Console :=
  { console with delay := console.delay.tick, sound := console.sound.tick }

/-- The passing of time that comes with a completed cycle. -/
def elapse (console : Console) : Console :=
  match console.timing with
  | .perStep => console.tickTimers
  | .external => console

def step (console : Console) : Report (Except Fault Outcome) :=
  let report := cycle { console with keyboard := console.keyboard.heedAll console.pending, pending := [] }
  { console := if report.answer.isOk then report.console.elapse else report.console
    answer := report.answer
    log := Machine.dropped console.pending ++ report.log }

/-- A step after the events of a keyboard. -/
def tick (console : Console) (events : List KeyEvent) : Report (Except Fault Outcome) :=
  let report := step { console with keyboard := console.keyboard.heedAll events }
  { report with log := Machine.dropped events ++ report.log }

/-! ### Programs -/

def reset (console : Console) : Console where
  timing := console.timing
  generator := console.generator
  framebuffer := console.framebuffer.clear
  keyboard := console.keyboard.reset

/-- A console in its reset state. -/
def create (timing : Timing) (generator : Generator) : Report Unit :=
  { console := reset { timing, generator }, answer := (), log := [.reset] }

/-! ### Commands -/

inductive Reply where
  | done
  | failed (fault : Fault)
  /-- A completed step, with the framebuffer that was shown. -/
  | stepped (outcome : Outcome) (shown : Option Framebuffer)

/-- The framebuffer that a display gets to see. -/
def Report.shown (report : Report (Except Fault Outcome)) : Option Framebuffer :=
  match report.answer with
  | .ok .drawn => some report.console.framebuffer
  | _ => none

def Report.toReply (report : Report (Except Fault Outcome)) (shown : Option Framebuffer) : Report Reply :=
  match report.answer with
  | .ok outcome => { report with answer := .stepped outcome shown }
  | .error fault => { report with answer := .failed fault }

def load (console : Console) (program : List UInt8) : Report Reply :=
  if program.length ≤ Memory.programCapacity then
    { console := { console.reset with memory := Memory.initial.write Memory.programStart program }
      answer := .done
      log := [.reset, .loaded program.length] }
  else { console, answer := .failed (.programTooLarge program.length Memory.programCapacity) }

def perform (console : Console) : Command → Report Reply
  | .step => console.step.toReply none
  | .tick events =>
    let report := console.tick events
    report.toReply report.shown
  | .tickTimers => { console := console.tickTimers, answer := .done }
  | .setKey event =>
    match console.keyboard.setKey event with
    | .ok keyboard => { console := { console with keyboard }, answer := .done }
    | .error fault => { console, answer := .failed fault }
  | .setKeys down =>
    { console := { console with keyboard := console.keyboard.setAll (.ofFn down.has) }, answer := .done }
  | .enqueue events => { console := { console with pending := console.pending ++ events }, answer := .done }
  | .load program => console.load program
  | .loadRom rom =>
    let report := console.load rom.bytes
    { report with log := .loadingRom rom.name :: report.log }
  | .reset => { console := console.reset, answer := .done, log := [.reset] }
  | .supply random => { console := { console with generator := random.generator }, answer := .done }

/-- The reports of a session, one for each command. -/
def performAll (console : Console) : List Command → List (Report Reply)
  | [] => []
  | command :: rest =>
    let report := console.perform command
    report :: performAll report.console rest

/-- The console after a session. -/
def after (console : Console) (commands : List Command) : Console :=
  commands.foldl (fun console command => (console.perform command).console) console

end Chip8.Console
