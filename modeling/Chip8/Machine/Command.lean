import Chip8.Machine.Step
import Chip8.Rom

/-!
# Commands of a host

Everything a host can do to a machine, as data.  `Machine.perform` carries a command out; `Machine.performAll` is a
session of commands from first to last.
-/

namespace Chip8

inductive Command where
  | step
  | tick (events : List KeyEvent)
  | tickTimers
  | setKey (event : KeyEvent)
  | setKeys (down : KeySet)
  | enqueue (events : List KeyEvent)
  | load (program : List UInt8)
  | loadRom (rom : Rom)
  | reset
  /-- A new source of random bytes. -/
  | supply (random : ByteSupply)

inductive Reply where
  | done
  | failed (fault : Fault)
  /-- A completed step, with the screen that was shown. -/
  | stepped (outcome : Outcome) (shown : Option Screen)

/-- The report of a step or a tick as a reply. -/
def Report.toReply (report : Report (Except Fault Outcome)) (shown : Option Screen) : Report Reply :=
  match report.answer with
  | .ok outcome => { report with answer := .stepped outcome shown }
  | .error fault => { report with answer := .failed fault }

namespace Machine

/-- A machine in its reset state. -/
def create (timing : Timing) (random : ByteSupply) : Report Unit :=
  { machine := { timing, random }, answer := (), log := [.reset] }

def loadReport (machine : Machine) (program : List UInt8) : Report Reply :=
  match machine.load program with
  | .ok loaded => { machine := loaded, answer := .done, log := [.reset, .loaded program.length] }
  | .error fault => { machine, answer := .failed fault }

def perform (machine : Machine) : Command → Report Reply
  | .step => machine.step.toReply none
  | .tick events =>
    let report := machine.tick events
    report.toReply report.shown
  | .tickTimers => { machine := machine.tickTimers, answer := .done }
  | .setKey event =>
    match machine.keypad.apply event with
    | .ok keypad => { machine := { machine with keypad }, answer := .done }
    | .error fault => { machine, answer := .failed fault }
  | .setKeys down => { machine := { machine with keypad := machine.keypad.setAll down }, answer := .done }
  | .enqueue events => { machine := machine.enqueue events, answer := .done }
  | .load program => machine.loadReport program
  | .loadRom rom =>
    let report := machine.loadReport rom.bytes
    { report with log := .loadingRom rom.name :: report.log }
  | .reset => { machine := machine.reset, answer := .done, log := [.reset] }
  | .supply random => { machine := { machine with random }, answer := .done }

/-- The reports of a session, one for each command. -/
def performAll (machine : Machine) : List Command → List (Report Reply)
  | [] => []
  | command :: rest =>
    let report := machine.perform command
    report :: performAll report.machine rest

/-- The machine after a session. -/
def after (machine : Machine) (commands : List Command) : Machine :=
  commands.foldl (fun machine command => (machine.perform command).machine) machine

theorem after_append (machine : Machine) (commands others : List Command) :
    machine.after (commands ++ others) = (machine.after commands).after others :=
  List.foldl_append

end Machine

end Chip8
