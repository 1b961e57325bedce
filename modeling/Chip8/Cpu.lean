/-
The processor: sixteen byte registers, the index register, the program counter, the call stack, two timers that count
down to zero, and the sixteen keys as the processor sees them.
-/
import Chip8.CallStack

namespace Chip8

structure Cpu where
  v : Vector UInt8 16 := Vector.replicate 16 0
  i : Int := 0
  pc : Nat := 0
  stack : CallStack := {}
  delay : Int := 0
  sound : Int := 0
  keys : Vector Bool 16 := Vector.replicate 16 false
  deriving DecidableEq, Repr

namespace Cpu

/-- the register that instructions leave carries and collisions in -/
def flag : Fin 16 := ⟨15, by decide⟩

/-- everything zero, no key pressed -/
def zero : Cpu := {}

def reg (c : Cpu) (x : Fin 16) : UInt8 := c.v[x]

def setReg (c : Cpu) (x : Fin 16) (b : UInt8) : Cpu := { c with v := c.v.set x b }

/-- the values of V0 to Vx -/
def firstRegs (c : Cpu) (x : Fin 16) : List UInt8 := c.v.toList.take (x.val + 1)

/-- the processor with V0, V1, … set to the given bytes -/
def setFirstRegs (c : Cpu) (bs : List UInt8) : Cpu := { c with v := Vector.ofFn fun r => bs[r.val]?.getD c.v[r] }

/-- a timer counts down to zero and rests -/
def countDown (timer : Int) : Int := if 0 < timer then timer - 1 else timer

def tick (c : Cpu) : Cpu := { c with delay := countDown c.delay, sound := countDown c.sound }

def key (k : Int) : Except Fault (Fin 16) :=
  if h : 0 ≤ k ∧ k < 16 then .ok ⟨k.toNat, by omega⟩ else .error (.noSuchKey k)

def setKey (c : Cpu) (k : Int) (pressed : Bool) : Except Fault Cpu := do
  let k ← key k
  return { c with keys := c.keys.set k pressed }

def keyPressed (c : Cpu) (k : Int) : Except Fault Bool := do
  let k ← key k
  return c.keys[k]

/-- the pressed key with the lowest number -/
def firstKey (c : Cpu) : Option (Fin 16) := (List.finRange 16).find? fun k => c.keys[k]

end Cpu

end Chip8
