import Chip8.Machine.Basic

/-!
# Dumps

The text that shows the counter, the index, the timers, the registers, the stack and the memory of a machine.  Memory
comes in rows of sixteen bytes; two or more rows of zeros in succession are one gap, and a single one is written out.
`Dump.collapse` decides that for any list of rows, also with a short last one.
-/

namespace Chip8

namespace Dump

/-- Bytes that stand together in memory. -/
structure Row where
  address : Nat
  bytes : List UInt8
  deriving DecidableEq, Repr

def rowSize : Nat := 16

/-- The bytes cut into rows, the first of which begins at `address`. -/
def rows (address : Nat) : List UInt8 → List Row
  | [] => []
  | byte :: rest =>
    { address, bytes := byte :: rest.take (rowSize - 1) } :: rows (address + rowSize) (rest.drop (rowSize - 1))
termination_by bytes => bytes.length
decreasing_by
  simp only [List.length_drop, List.length_cons]
  omega

theorem flatMap_rows (address : Nat) (bytes : List UInt8) : (rows address bytes).flatMap Row.bytes = bytes := by
  fun_induction rows address bytes with
  | case1 => rfl
  | case2 address byte rest ih => rw [List.flatMap_cons, ih, List.cons_append, List.take_append_drop]

def Row.isZero (row : Row) : Bool := row.bytes.all (· == 0)

inductive Line where
  | row (shown : Row)
  | gap
  deriving DecidableEq, Repr

/-- The lines for a list of rows.  `inGap` says that the row before them belongs to a gap. -/
def collapse (inGap : Bool) : List Row → List Line
  | [] => []
  | row :: rest =>
    if row.isZero then
      if inGap then collapse true rest
      else if rest.head?.any Row.isZero then .gap :: collapse true rest
      else .row row :: collapse false rest
    else .row row :: collapse false rest

def byte (value : UInt8) : String := Hexadecimal.text 2 value.toNat

def word (value : UInt16) : String := Hexadecimal.text 4 value.toNat

def Line.text : Line → String
  | row shown =>
    "\t" ++ Hexadecimal.text 4 shown.address ++ " - "
      ++ Hexadecimal.text 4 (shown.address + shown.bytes.length - 1) ++ " :"
      ++ String.join (shown.bytes.map fun value => " " ++ byte value)
  | gap => "\t..."

/-- The lines that show a memory of any size. -/
def memory (bytes : List UInt8) : List String := (collapse false (rows 0 bytes)).map Line.text

/-- A line with four registers, the first of which is `first`. -/
def registerLine (registers : Vector UInt8 16) (first : Nat) : String :=
  "\t" ++ String.join ((List.range' first 4).map fun k =>
    "V" ++ String.ofList (Hexadecimal.digits k) ++ " " ++ byte (registers.getD k 0) ++ " ")

def registers (registers : Vector UInt8 16) : List String := [0, 4, 8, 12].map (registerLine registers)

/-- The return addresses, the latest one last. -/
def stack (addresses : List UInt16) : String :=
  "Stack:" ++ String.join (addresses.reverse.map fun address => " " ++ word address)

end Dump

namespace Machine

def dumpLines (machine : Machine) : List String :=
  ["Program Counter : " ++ Dump.word machine.counter,
    "Index Register  : " ++ Dump.word machine.index,
    "Delay Timer     : " ++ machine.delay.value.toNat.repr,
    "Sound Timer     : " ++ machine.sound.value.toNat.repr,
    "Registers:"] ++ Dump.registers machine.registers ++
    [Dump.stack machine.stack,
      "Memory:"] ++ Dump.memory machine.memory.toList

def dump (machine : Machine) : String := String.join (machine.dumpLines.map (· ++ "\n"))

end Machine

end Chip8
