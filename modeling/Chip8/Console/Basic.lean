import Chip8.Console.Framebuffer
import Chip8.Console.Generator
import Chip8.Console.Keyboard
import Chip8.Instruction.Reading
import Chip8.Machine.Step

/-!
# Consoles

A console is a machine with the devices that it has as hardware: a framebuffer of bytes for the screen, a keyboard with
separate fields for the wait and its presses, and any generator of random bytes.  Six instructions deal with a device;
the others run on the parts that a console and a machine have in common (`Console.core`).
-/

namespace Chip8

structure Console where
  timing : Timing := .perStep
  generator : Generator
  memory : Memory := .initial
  registers : Vector UInt8 16 := .replicate 16 0
  index : UInt16 := 0
  counter : UInt16 := .ofNat Memory.programStart
  stack : List UInt16 := []
  delay : Timer := {}
  sound : Timer := {}
  framebuffer : Framebuffer := {}
  keyboard : Keyboard := {}
  pending : List KeyEvent := []

namespace Console

/-- The effect of an instruction. -/
structure Effect where
  console : Console
  advance : Advance := .next
  outcome : Outcome := .plain
  log : List LogRecord := []

/-- The console once the counter has made its movement. -/
def Effect.settled (effect : Effect) : Console :=
  { effect.console with counter := effect.advance.apply effect.console.counter }

/-- What an operation leaves behind. -/
structure Report (α : Type) where
  console : Console
  answer : α
  log : List LogRecord := []

/-- The machine without a device: its screen, its keypad and its supply of random bytes are new ones. -/
def core (console : Console) : Machine where
  timing := console.timing
  memory := console.memory
  registers := console.registers
  index := console.index
  counter := console.counter
  stack := console.stack
  delay := console.delay
  sound := console.sound
  pending := console.pending

/-- The console with its own devices and all other parts from a machine. -/
def adopt (console : Console) (machine : Machine) : Console :=
  { console with
    timing := machine.timing
    memory := machine.memory
    registers := machine.registers
    index := machine.index
    counter := machine.counter
    stack := machine.stack
    delay := machine.delay
    sound := machine.sound
    pending := machine.pending }

def register (console : Console) (x : Register) : UInt8 := console.core.register x

def setRegister (console : Console) (x : Register) (value : UInt8) : Console :=
  console.adopt (console.core.setRegister x value)

/-! ### Instructions -/

/-- The sprite of `n` rows at the index is drawn at registers `x` and `y`, which are taken modulo the size of the
screen; the flag tells whether a pixel went off. -/
def drawSprite (console : Console) (x y : Register) (n : Nat) : Except Fault Console :=
  (console.memory.read console.index.toNat n).map fun bytes =>
    let column := (console.register x).toNat % Screen.width
    let row := (console.register y).toNat % Screen.height
    let drawn := Framebuffer.drawRows column row bytes 0 { framebuffer := console.framebuffer }
    { console with framebuffer := drawn.framebuffer }.setRegister Machine.flagRegister drawn.collided.toUInt8

/-- Asks the keyboard for a press, and holds the counter while there is none. -/
def awaitKey (console : Console) (x : Register) : Effect :=
  match console.keyboard.takePress with
  | (some key, keyboard) =>
    { console := { console with keyboard }.setRegister x (.ofNat key), log := [.keyTaken (.ofNat 16 key)] }
  | (none, keyboard) => { console := { console with keyboard }, advance := .hold, outcome := .waiting }

def execute (console : Console) : Instruction → Except Fault Effect
  | .clear => .ok { console := { console with framebuffer := console.framebuffer.clear }, outcome := .drawn }
  | .random x nn =>
    .ok { console := { console with generator := console.generator.rest }.setRegister x
            (nn &&& console.generator.peek) }
  | .draw x y n => (console.drawSprite x y n.val).map fun drawn => { console := drawn, outcome := .drawn }
  | .skipKeyDown x => .ok { console, advance := .skipIf (console.keyboard.isPressed (console.register x).toNat) }
  | .skipKeyUp x => .ok { console, advance := .skipIf !console.keyboard.isPressed (console.register x).toNat }
  | .awaitKey x => .ok (console.awaitKey x)
  | instruction =>
    (console.core.execute instruction).map fun effect =>
      { console := console.adopt effect.machine
        advance := effect.advance
        outcome := effect.outcome
        log := effect.log }

end Console

end Chip8
