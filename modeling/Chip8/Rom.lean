/-!
# Roms

A rom is a named program.  It can be collected from a sequence of reads: chunks follow one another, an interrupted
read is tried again, and the first read that fails ends the collection with its message.
-/

namespace Chip8

structure Rom where
  name : String
  bytes : List UInt8
  deriving DecidableEq, Repr

namespace Rom

/-- What one read from a source yields. -/
inductive Read where
  | chunk (bytes : List UInt8)
  | interrupted
  | failed (message : String)
  deriving DecidableEq, Repr

/-- All the bytes up to the end of the source. -/
def collect : List Read → Except String (List UInt8)
  | [] => .ok []
  | .chunk bytes :: rest => (collect rest).map (bytes ++ ·)
  | .interrupted :: rest => collect rest
  | .failed message :: _ => .error message

def ofReads (name : String) (reads : List Read) : Except String Rom :=
  (collect reads).map fun bytes => { name, bytes }

def size (rom : Rom) : Nat := rom.bytes.length

def isEmpty (rom : Rom) : Bool := rom.bytes.isEmpty

end Rom

end Chip8
