/-
Everything an instruction can read or change, and effects on it. An effect may stop with a fault; the state it has
reached by then stays. The primitive effects here are all that instructions are made of.
-/
import Chip8.Cpu
import Chip8.Memory
import Chip8.Screen
import Chip8.Random.Twister

namespace Chip8

/-- processor, memory, screen, random generator, and the number of instructions carried out -/
structure State where
  cpu : Cpu := {}
  memory : Memory
  screen : Screen
  rng : Twister
  cycles : Nat := 0
  deriving DecidableEq

/-- something that acts on the state and may stop with a fault, keeping the state it has reached -/
abbrev Effect (α : Type) := EStateM Fault State α

namespace Effect

def require : Except Fault Unit → Effect Unit
  | .ok () => pure ()
  | .error f => throw f

def onCpu (f : Cpu → Cpu) : Effect Unit := modify fun s => { s with cpu := f s.cpu }

def reg (x : Fin 16) : Effect UInt8 := do return (← get).cpu.reg x

def setReg (x : Fin 16) (b : UInt8) : Effect Unit := onCpu (·.setReg x b)

def setFlag (on : Bool) : Effect Unit := setReg Cpu.flag (if on then 1 else 0)

def setIndex (i : Int) : Effect Unit := onCpu fun c => { c with i := i }

def setPc (pc : Nat) : Effect Unit := onCpu fun c => { c with pc := pc }

/-- leave out the next instruction if the condition holds -/
def skipIf (condition : Bool) : Effect Unit := if condition then onCpu fun c => { c with pc := c.pc + 2 } else pure ()

/-- the range from I on lies inside memory -/
def requireWindow (length : Nat) : Effect Unit := do
  let s ← get
  require (s.memory.check s.cpu.i length)

/-- the address holds a byte of memory -/
def requireTarget (target : Nat) : Effect Unit := do
  let s ← get
  require (s.memory.checkTarget target)

/-- read bytes from I on -/
def readWindow (length : Nat) : Effect (List UInt8) := do
  let s ← get
  return s.memory.read s.cpu.i.toNat length

/-- write bytes from I on -/
def writeWindow (bs : List UInt8) : Effect Unit := modify fun s => { s with memory := s.memory.write s.cpu.i.toNat bs }

def push (value : Int) : Effect Unit := do
  match (← get).cpu.stack.push value with
  | .ok stack => onCpu fun c => { c with stack := stack }
  | .error f => throw f

def pop : Effect Nat := do
  match (← get).cpu.stack.pop with
  | .ok (value, stack) => onCpu (fun c => { c with stack := stack }); return value
  | .error f => throw f

def setKey (key : Int) (pressed : Bool) : Effect Unit := do
  match (← get).cpu.setKey key pressed with
  | .ok cpu => onCpu fun _ => cpu
  | .error f => throw f

def keyPressed (key : Int) : Effect Bool := do
  match (← get).cpu.keyPressed key with
  | .ok pressed => return pressed
  | .error f => throw f

def randomByte : Effect UInt8 := modifyGet fun s =>
  let drawn := s.rng.byte
  (drawn.1, { s with rng := drawn.2 })

/-- draw a sprite on the screen; whether it collided -/
def drawSprite (x y : Int) (rows : List Int) (clip : Bool) : Effect Bool := modifyGet fun s =>
  let drawn := s.screen.draw x y rows clip
  (drawn.2, { s with screen := drawn.1 })

end Effect

end Chip8
