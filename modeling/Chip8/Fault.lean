/-
What can stop the processor. A program can bring about five kinds of fault. A sixth has its cause outside: a timer was
given a value that no register can hold. `Fault.message` words a fault for people.
-/
import Chip8.Text.Hex

namespace Chip8

/-- why an instruction could not be fetched, decoded or carried out -/
inductive Fault where
  /-- a call with every usable slot of the call stack taken -/
  | stackOverflow
  /-- a return with no call open -/
  | stackUnderflow
  /-- an access at `address` to a memory of `size` bytes -/
  | addressOutOfBounds (address : Int) (size : Nat)
  /-- a word that is no instruction -/
  | unsupportedOpcode (word : UInt16)
  /-- a key number that the keypad does not have -/
  | noSuchKey (key : Int)
  /-- a timer value that no register can hold -/
  | notAByte (value : Int)
  deriving DecidableEq, Repr

def Fault.byProgram : Fault → Bool
  | .notAByte _ => false
  | _ => true

def Fault.message : Fault → String
  | .stackOverflow => "Stack overflow: call stack of length 16 is full."
  | .stackUnderflow => "Stack underflow: call stack is empty."
  | .addressOutOfBounds address size =>
    "Address " ++ Hex.address address ++ " out of bounds for memory of size " ++ Hex.address size ++ "."
  | .unsupportedOpcode word => "Unsupported opcode " ++ Hex.upper 4 word.toNat ++ "."
  | .noSuchKey key => "Key index " ++ toString key ++ " out of range 0-15."
  | .notAByte _ => "byte must be in range(0, 256)"

end Chip8
