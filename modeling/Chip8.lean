import Chip8.Machine.Command
import Chip8.Machine.Dump
import Chip8.Machine.Writes
import Chip8.Machine.Host
import Chip8.Console.Framebuffer
import Chip8.Console.Keyboard
import Chip8.Console.Generator
import Chip8.Console.Basic
import Chip8.Console.Command
import Chip8.Guarded.Basic
import Chip8.Guarded.Screen
import Chip8.Guarded.Keypad
import Chip8.Guarded.Machine
import Chip8.Guarded.Dump
import Chip8.Proofs.Answers
import Chip8.Proofs.Atomicity
import Chip8.Proofs.KeyWait
import Chip8.Proofs.WaitState
import Chip8.Proofs.Calls
import Chip8.Proofs.Loading
import Chip8.Proofs.Assembly
import Chip8.Proofs.Pacing
import Chip8.Proofs.Frame
import Chip8.Proofs.Presentation
import Chip8.Proofs.Drawing
import Chip8.Proofs.DumpLines
import Chip8.Proofs.Safety
import Chip8.Proofs.Peripherals
import Chip8.Proofs.Faults
import Chip8.Proofs.InputPaths
import Chip8.Proofs.Outputs
import Chip8.Proofs.KeyQueue
import Chip8.Proofs.ControlFlow
import Chip8.Proofs.Sprites
import Chip8.Proofs.Alignment
import Chip8.Proofs.Isolation
import Chip8.Proofs.DumpReading
import Chip8.Proofs.Branches
import Chip8.Proofs.KeyOrder
import Chip8.Proofs.LastTransition
import Chip8.Proofs.Diagnostics
import Chip8.Proofs.Timers
import Chip8.Proofs.RandomBytes
import Chip8.Proofs.Stamps
import Chip8.Proofs.Transfers
import Chip8.Proofs.Calculation
import Chip8.Proofs.StepLog
import Chip8.Proofs.DumpGaps
import Chip8.Proofs.Framebuffer
import Chip8.Proofs.Keyboard
import Chip8.Proofs.Console
import Chip8.Proofs.Spelling
import Chip8.Proofs.Handles
