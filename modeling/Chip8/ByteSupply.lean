/-!
# Supplies of bytes

A supply hands out the bytes of a list one by one and starts over at its end; an empty list hands out zeros.  It is
the machine's source of random bytes.
-/

namespace Chip8

structure ByteSupply where
  bytes : Array UInt8 := #[]
  /-- The number of bytes handed out so far. -/
  position : Nat := 0
  deriving DecidableEq, Repr

namespace ByteSupply

/-- The byte that is next. -/
def peek (supply : ByteSupply) : UInt8 := supply.bytes.getD (supply.position % supply.bytes.size) 0

/-- The supply after one byte was taken. -/
def rest (supply : ByteSupply) : ByteSupply := { supply with position := supply.position + 1 }

end ByteSupply

end Chip8
