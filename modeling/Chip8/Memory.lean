/-
The address space: bytes from address 0 upward. Every access that can leave the space is checked first, and the check
names the first address of the range that lies outside. `write` is the only way bytes change, and it never changes how
many there are.
-/
import Chip8.Fault

namespace Chip8

structure Memory where
  bytes : Array UInt8
  deriving DecidableEq, Repr

namespace Memory

def standardSize : Nat := 0x1000

def programStart : Nat := 0x200

/-- the first number that is too large to number bytes -/
def indexLimit : Nat := 0x8000000000000000

inductive SizeError where
  /-- not a positive whole number -/
  | notPositive
  /-- more bytes than can be numbered -/
  | tooLarge
  deriving DecidableEq, Repr

def SizeError.message : SizeError → String
  | .notPositive => "Memory size must be a positive integer."
  | .tooLarge => "cannot fit 'int' into an index-sized integer"

def size (m : Memory) : Nat := m.bytes.size

def zeros (size : Nat) : Memory := ⟨Array.replicate size 0⟩

def create (size : Int) : Except SizeError Memory :=
  if size ≤ 0 then .error .notPositive
  else if indexLimit ≤ size then .error .tooLarge
  else .ok (zeros size.toNat)

/-- the byte at an address, zero outside -/
def byte (m : Memory) (address : Nat) : UInt8 := m.bytes.getD address 0

/-- the bytes of a range, cut at the end of memory -/
def read (m : Memory) (address length : Nat) : List UInt8 := (m.bytes.extract address (address + length)).toList

/-- the place that an address stands for; a negative address counts back from the end of memory -/
def place? (m : Memory) (address : Int) : Option Nat :=
  let place := if address < 0 then address + m.size else address
  if 0 ≤ place ∧ place < m.size then some place.toNat else none

/-- the bytes from one address up to another, both of which may count back from the end; what lies outside is cut off -/
def slice (m : Memory) (start stop : Int) : List UInt8 :=
  let bound (address : Int) : Nat := (if address < 0 then address + m.size else address).toNat
  m.read (bound start) (bound stop - bound start)

/-- put bytes at consecutive addresses; what falls outside is dropped -/
def blit (bytes : Array UInt8) (address : Nat) : List UInt8 → Array UInt8
  | [] => bytes
  | b :: bs => blit (bytes.setIfInBounds address b) (address + 1) bs

/-- the memory with the given bytes from `address` on -/
def write (m : Memory) (address : Nat) (bs : List UInt8) : Memory := ⟨blit m.bytes address bs⟩

/-- a range lies inside memory, or the first address of it that does not is the fault -/
def check (m : Memory) (address : Int) (length : Int := 1) : Except Fault Unit :=
  if address < 0 then .error (.addressOutOfBounds address m.size)
  else if address + length > m.size then .error (.addressOutOfBounds (max address m.size) m.size)
  else .ok ()

/-- a jump may go to any address that holds a byte -/
def checkTarget (m : Memory) (target : Nat) : Except Fault Unit :=
  if target < m.size then .ok () else .error (.addressOutOfBounds target m.size)

end Memory

end Chip8
