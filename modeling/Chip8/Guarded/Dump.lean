import Chip8.Guarded.Basic
import Chip8.Machine.Dump

/-!
# Dumps with their checks

The dump written by loops over the rows of the memory and over the registers, with the checks of `Guarded`.  Addresses
are computed from the number of a row.
-/

namespace Chip8.Guarded

/-- A row of the memory whose first byte stands at `start`. -/
def rowLine (start : Nat) (bytes : List UInt8) : Guarded String := do
  let last ← sub (← add start bytes.length) 1
  return "\t" ++ Hexadecimal.text 4 start ++ " - " ++ Hexadecimal.text 4 last ++ " :"
    ++ String.join (bytes.map fun value => " " ++ Dump.byte value)

/-- The number of rows of zeros that follow one another from row `i` on. -/
def zeroRun (rows : List Dump.Row) (i : Nat) : Guarded Nat := do
  let row := rows.get (← index i rows.length)
  if row.isZero then
    let rest ← slice rows i rows.length
    return (rest.takeWhile Dump.Row.isZero).length
  else return 0

/-- The lines from row `i` on. -/
def memoryLines (rows : List Dump.Row) (i : Nat) : Guarded (List String) := do
  if i < rows.length then
    let run ← zeroRun rows i
    if 2 ≤ run then
      let _ ← add i run
      return Dump.Line.gap.text :: (← memoryLines rows (i + run))
    else
      let row := rows.get (← index i rows.length)
      let line ← rowLine (← mul i Dump.rowSize) row.bytes
      let _ ← add i 1
      return line :: (← memoryLines rows (i + 1))
  else return []
termination_by rows.length - i

/-- The register at place `j` of the line with number `i`. -/
def registerCell (registers : Vector UInt8 16) (i j : Nat) : Guarded String := do
  let k ← add (← mul i 4) j
  let value := registers.get (← index k 16)
  return "V" ++ String.ofList (Hexadecimal.digits k) ++ " " ++ Dump.byte value ++ " "

def registerLine (registers : Vector UInt8 16) (i : Nat) : Guarded String := do
  let cells ← (List.range 4).mapM (registerCell registers i)
  return "\t" ++ String.join cells

def dump (machine : Machine) : Guarded String := do
  let registers ← (List.range 4).mapM (registerLine machine.registers)
  let memory ← memoryLines (Dump.rows 0 machine.memory.toList) 0
  let lines :=
    ["Program Counter : " ++ Dump.word machine.counter,
      "Index Register  : " ++ Dump.word machine.index,
      "Delay Timer     : " ++ machine.delay.value.toNat.repr,
      "Sound Timer     : " ++ machine.sound.value.toNat.repr,
      "Registers:"] ++ registers ++
      [Dump.stack machine.stack,
        "Memory:"] ++ memory
  return String.join (lines.map (· ++ "\n"))

end Chip8.Guarded
