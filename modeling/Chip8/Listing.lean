/-
Disassembly: a range of memory as lines of two bytes each, and a last line of one byte if the range ends on one. A
range that starts below address 0 starts at the end of memory.
-/
import Chip8.Memory
import Chip8.Instruction.Assembly

namespace Chip8

/-- a line of a listing: its address, the bytes it covers and what they say -/
structure Listing.Line where
  address : Int
  bytes : List UInt8
  text : String
  deriving DecidableEq, Repr

namespace Listing

/-- why a range below address 0 cannot be listed -/
inductive Error where
  /-- it starts further below than memory is large -/
  | outside
  /-- it starts further below than bytes can be numbered -/
  | tooFar
  deriving DecidableEq, Repr

def Error.message : Error → String
  | .outside => "bytearray index out of range"
  | .tooFar => "cannot fit 'int' into an index-sized integer"

def Line.hex (l : Line) : String := " ".intercalate (l.bytes.map fun b => Hex.upper 2 b.toNat)

/-- list bytes that start at an address, two at a time -/
def ofBytes (address : Int) : List UInt8 → List Line
  | [] => []
  | [b] => [⟨address, [b], "DB $" ++ Hex.upper 2 b.toNat⟩]
  | high :: low :: rest =>
    ⟨address, [high, low], (Instruction.decode (Word.ofBytes high low)).assembly⟩ :: ofBytes (address + 2) rest

def bytesBetween (m : Memory) (start stop : Int) : List UInt8 :=
  (List.range (stop - start).toNat).map fun (k : Nat) => m.byte ((m.place? (start + k)).getD m.size)

/-- list `length` bytes of memory from an address on, as far as memory goes -/
def ofMemory (m : Memory) (start length : Int) : Except Error (List Line) :=
  let stop := min (start + length) m.size
  if stop ≤ start then .ok []
  else if start < -Memory.indexLimit then .error .tooFar
  else if (m.place? start).isNone then .error .outside
  else .ok (ofBytes start (bytesBetween m start stop))

end Listing

end Chip8
