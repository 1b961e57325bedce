/-
Program images and how they get into memory. An image is a run of bytes, a run of numbers that should be bytes, or
values at single addresses. Loading checks everything before it writes anything, so an image that does not fit leaves
memory as it was.
-/
import Std.Data.HashMap
import Chip8.Font

namespace Chip8

/-- values at single addresses, in the order in which the addresses were first named -/
abbrev Sparse := List (Int × Int)

namespace Sparse

/-- the value of every address after the cells are put one after the other -/
def lastValues (cells : List (Int × Int)) : Std.HashMap Int Int := cells.foldl (fun vs c => vs.insert c.1 c.2) {}

/-- the addresses of cells with their values from a table, each where it is named first -/
def gather (values : Std.HashMap Int Int) : List (Int × Int) → Sparse
  | [] => []
  | c :: cs =>
    match values[c.1]? with
    | some v => (c.1, v) :: gather (values.erase c.1) cs
    | none => gather values cs

/-- cells put one after the other: an address keeps its first place and takes its last value -/
def ofList (cells : List (Int × Int)) : Sparse := gather (lastValues cells) cells

def get? (cells : Sparse) (address : Int) : Option Int := (cells.find? (·.1 == address)).map (·.2)

end Sparse

inductive Image where
  | raw (bytes : List UInt8)
  | numbers (values : List Int)
  | sparse (cells : Sparse)
  deriving DecidableEq, Repr

namespace Image

inductive LoadError where
  /-- a number that is no byte -/
  | notBytes
  | fault (f : Fault)
  deriving DecidableEq, Repr

def LoadError.message : LoadError → String
  | .notBytes => "bytes must be in range(0, 256)"
  | .fault f => f.message

/-- numbers as bytes, if all of them are -/
def bytes? (values : List Int) : Option (List UInt8) :=
  values.mapM fun n => if 0 ≤ n ∧ n < 256 then some (UInt8.ofNat n.toNat) else none

/-- put bytes at an address if all of them fit there; how many there were -/
def loadBytes (m : Memory) (address : Int) (bs : List UInt8) : Except Fault (Memory × Nat) := do
  m.check address bs.length
  return (m.write address.toNat bs, bs.length)

/-- every address holds a byte of memory -/
def checkCells (m : Memory) : Sparse → Except Fault Unit
  | [] => .ok ()
  | c :: cs => do
    m.check c.1
    checkCells m cs

/-- put the low byte of every value at its address if memory has all the addresses; how many there were -/
def loadCells (m : Memory) (cells : Sparse) : Except Fault (Memory × Nat) := do
  checkCells m cells
  return (cells.foldl (fun m c => m.write c.1.toNat [UInt8.ofNat (c.2 % 256).toNat]) m, cells.length)

/-- put an image into memory, its first byte at `address` unless it names its own addresses; how many bytes it has -/
def load (m : Memory) (address : Int) : Image → Except LoadError (Memory × Nat)
  | raw bs => (loadBytes m address bs).mapError .fault
  | numbers values =>
    match bytes? values with
    | some bs => (loadBytes m address bs).mapError .fault
    | none => .error .notBytes
  | sparse cells => (loadCells m cells).mapError .fault

end Image

end Chip8
