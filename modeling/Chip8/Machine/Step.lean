import Chip8.Instruction.Reading
import Chip8.Machine.Execute

/-!
# Steps

A step hands the pending key events to the keypad and runs one cycle: an opcode is fetched at the counter, decoded and
executed.  A cycle that fails gives back the machine it began with.  An opcode that stands for no instruction does not
fail; it is passed over.  Under `Timing.perStep` each completed cycle ends with a tick of the timers.

`Machine.tick` is a step of a host with a keyboard and a display: key events come first, and the screen is shown after
the steps that drew.  `Machine.run` makes steps up to the first failure.
-/

namespace Chip8

namespace Machine

/-- The cycle after the fetch. -/
def dispatch (machine : Machine) (opcode : Opcode) : Report (Except Fault Outcome) :=
  let fetched := { machine with counter := Advance.skip.apply machine.counter }
  match Instruction.decode? opcode with
  | none =>
    { machine := fetched
      answer := .ok (.unsupported opcode)
      log := [.unsupported opcode (fetched.counter - 2)] }
  | some instruction =>
    match fetched.execute instruction with
    | .error fault => { machine, answer := .error fault, log := [.executing instruction] }
    | .ok effect =>
      { machine := effect.settled, answer := .ok effect.outcome, log := .executing instruction :: effect.log }

def cycle (machine : Machine) : Report (Except Fault Outcome) :=
  match Opcode.read machine.memory.toArray machine.counter.toNat with
  | .error fault => { machine, answer := .error fault }
  | .ok opcode =>
    let report := machine.dispatch opcode
    { report with log := .fetched opcode machine.counter :: report.log }

/-- The passing of time that comes with a completed cycle. -/
def elapse (machine : Machine) : Machine :=
  match machine.timing with
  | .perStep => machine.tickTimers
  | .external => machine

/-- The records of the events whose key does not exist. -/
def dropped (events : List KeyEvent) : List LogRecord := (KeyEvent.invalid events).map .keyDropped

def step (machine : Machine) : Report (Except Fault Outcome) :=
  let report := machine.applyPending.cycle
  { machine := if report.answer.isOk then report.machine.elapse else report.machine
    answer := report.answer
    log := dropped machine.pending ++ report.log }

/-- A step after the events of a keyboard. -/
def tick (machine : Machine) (events : List KeyEvent) : Report (Except Fault Outcome) :=
  let report := { machine with keypad := machine.keypad.heedAll events }.step
  { report with log := dropped events ++ report.log }

/-- At most `n` steps, with the answers of those that were made. -/
def run : Nat → Machine → Report (List (Except Fault Outcome))
  | 0, machine => { machine, answer := [] }
  | n + 1, machine =>
    let report := machine.step
    match report.answer with
    | .error fault => { machine := report.machine, answer := [.error fault], log := report.log }
    | .ok outcome =>
      let rest := run n report.machine
      { machine := rest.machine, answer := .ok outcome :: rest.answer, log := report.log ++ rest.log }

end Machine

/-- The screen that a display gets to see. -/
def Report.shown (report : Report (Except Fault Outcome)) : Option Screen :=
  match report.answer with
  | .ok .drawn => some report.machine.screen
  | _ => none

/-- How a number of steps went. -/
structure Tally where
  steps : Nat
  drawn : Nat
  waiting : Nat
  unsupported : Nat
  last : Option (Except Fault Outcome)

def Tally.ofAnswers (answers : List (Except Fault Outcome)) : Tally where
  steps := answers.length
  drawn := answers.countP fun answer => answer matches .ok .drawn
  waiting := answers.countP fun answer => answer matches .ok .waiting
  unsupported := answers.countP fun answer => answer matches .ok (.unsupported _)
  last := answers.getLast?

end Chip8
