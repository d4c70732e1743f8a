import Chip8.Machine.Command
import Mathlib.Logic.Function.Basic

/-!
# Machines and the handles to their queues

A machine shares its queue of key events with the handles to it.  A host holds any number of machines and handles, each
with the place of its queue.  What is done with a machine is done on the events at its place, and leaves the machine at
its place.
-/

namespace Chip8

/-- A machine and the place of its queue, where its events are instead of in `Machine.pending`. -/
structure Tenant where
  machine : Machine
  place : Nat

structure Host where
  /-- The queue at each place. -/
  queues : Nat → List KeyEvent := fun _ => []
  /-- The first place that is free. -/
  free : Nat := 0
  tenants : List Tenant := []
  /-- The place of the queue of each handle. -/
  handles : List Nat := []

namespace Host

/-- Machines and handles are told apart by their numbers, in the order in which they came to be. -/
inductive Action where
  /-- A new machine, with a queue of its own. -/
  | create (timing : Timing) (random : ByteSupply)
  /-- A handle to a new queue, which is of no machine. -/
  | queue
  /-- A handle to the queue of a machine. -/
  | handle (number : Nat)
  /-- Another handle to the same queue. -/
  | clone (handle : Nat)
  | push (handle : Nat) (event : KeyEvent)
  | perform (number : Nat) (command : Command)

/-- The machine with the events in its queue. -/
def view (host : Host) (tenant : Tenant) : Machine :=
  { tenant.machine with pending := host.queues tenant.place }

def machines (host : Host) : List Machine := host.tenants.map host.view

def places (host : Host) : List Nat := host.tenants.map Tenant.place

def isEmpty? (host : Host) (handle : Nat) : Option Bool :=
  host.handles[handle]?.map fun place => (host.queues place).isEmpty

def fill (host : Host) (place : Nat) (events : List KeyEvent) : Host :=
  { host with queues := Function.update host.queues place events }

/-- A new queue takes the first place that is free. -/
def allocate (host : Host) : Host :=
  { host.fill host.free [] with free := host.free + 1 }

/-- The machine with the number is back at its place, and so is what is left of its queue. -/
def put (host : Host) (number place : Nat) (machine : Machine) : Host :=
  { host.fill place machine.pending with tenants := host.tenants.set number ⟨machine, place⟩ }

/-- What is done with a machine or a handle that does not exist does nothing. -/
def act (host : Host) : Action → Host
  | .create timing random =>
    { host.allocate with tenants := host.tenants ++ [⟨(Machine.create timing random).machine, host.free⟩] }
  | .queue => { host.allocate with handles := host.handles ++ [host.free] }
  | .handle number => { host with handles := host.handles ++ host.places[number]?.toList }
  | .clone handle => { host with handles := host.handles ++ host.handles[handle]?.toList }
  | .push handle event =>
    match host.handles[handle]? with
    | none => host
    | some place => host.fill place (host.queues place ++ [event])
  | .perform number command =>
    match host.tenants[number]? with
    | none => host
    | some tenant => host.put number tenant.place ((host.view tenant).perform command).machine

def after (host : Host) (actions : List Action) : Host :=
  actions.foldl act host

end Host

end Chip8
