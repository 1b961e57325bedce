/-
The instruction cycle. `Effect.execute` carries out one instruction, `Effect.fetch` takes the next word from memory,
and `Effect.step` does one whole cycle: fetch, decode, execute, count.

Everything that can go wrong with an instruction is checked before it changes anything, so an instruction that stops
with a fault has changed nothing but the program counter, which the fetch has moved on. Flags are written after
results, so VF as a target ends as the flag.
-/
import Chip8.Dialect
import Chip8.State
import Chip8.Instruction.Basic

namespace Chip8

/-- the result of an operation on the values of Vx and Vy, and the flag if it sets one -/
def Arith.apply (d : Dialect) (op : Arith) (a b : UInt8) : UInt8 × Option Bool :=
  let bitwise (r : UInt8) := (r, if d.logicClearsFlag then some false else none)
  let source := if d.shiftReadsVy then b else a
  match op with
  | copy => (b, none)
  | or => bitwise (a ||| b)
  | and => bitwise (a &&& b)
  | xor => bitwise (a ^^^ b)
  | add => (a + b, some (255 < a.toNat + b.toNat))
  | sub => (a - b, some (b ≤ a))
  | subn => (b - a, some (a ≤ b))
  | shr => (source >>> 1, some (source.toNat % 2 = 1))
  | shl => (source <<< 1, some (128 ≤ source.toNat))

/-- the register that the jump with offset adds: V0, or the one that the top digit of the address names -/
def Dialect.offsetReg (d : Dialect) (addr : Fin 4096) : Fin 16 :=
  ⟨if d.jumpAddsVx then addr.val / 256 else 0, by split <;> omega⟩

/-- the hundreds, tens and ones of a byte -/
def decimalDigits (b : UInt8) : List UInt8 := [b / 100, b / 10 % 10, b % 10]

namespace Effect

/-- leave the subroutine: go on where the newest call was made -/
def leave : Effect Unit := do
  let target ← pop
  setPc target

def jump (target : Nat) : Effect Unit := do
  requireTarget target
  setPc target

/-- enter a subroutine, noting where to go on after it -/
def enter (target : Nat) : Effect Unit := do
  requireTarget target
  push (← get).cpu.pc
  setPc target

def arith (d : Dialect) (op : Arith) (x y : Fin 16) : Effect Unit := do
  let (result, carry) := op.apply d (← reg x) (← reg y)
  setReg x result
  match carry with
  | some on => setFlag on
  | none => pure ()

def draw (clip : Bool) (x y n : Fin 16) : Effect Unit := do
  requireWindow n.val
  let rows ← readWindow n.val
  let collision ← drawSprite (← reg x).toNat (← reg y).toNat (rows.map fun b => (b.toNat : Int)) clip
  setFlag collision

/-- the lowest key pressed, or this instruction once more -/
def waitKey (x : Fin 16) : Effect Unit := do
  match (← get).cpu.firstKey with
  | some k => setReg x (UInt8.ofNat k.val)
  | none => onCpu fun c => { c with pc := c.pc - 2 }

/-- move I past bytes just used, if the dialect does that -/
def advanceIndex (d : Dialect) (count : Nat) : Effect Unit :=
  if d.transferAdvancesI then onCpu fun c => { c with i := (c.i + count) % 0x10000 } else pure ()

/-- the delay timer's value, if a register can hold it -/
def readDelay : Effect UInt8 := do
  let timer := (← get).cpu.delay
  if 0 ≤ timer ∧ timer < 256 then return UInt8.ofNat timer.toNat else throw (.notAByte timer)

def execute (p : Profile) : Instruction → Effect Unit
  | .sys _ => pure ()
  | .clear => modify fun s => { s with screen := s.screen.clear }
  | .ret => leave
  | .jump addr => jump addr.val
  | .call addr => enter addr.val
  | .skipEq x byte => do skipIf ((← reg x) == byte)
  | .skipNe x byte => do skipIf ((← reg x) != byte)
  | .skipEqReg x y => do skipIf ((← reg x) == (← reg y))
  | .skipNeReg x y => do skipIf ((← reg x) != (← reg y))
  | .load x byte => setReg x byte
  | .add x byte => do setReg x ((← reg x) + byte)
  | .arith op x y => arith p.dialect op x y
  | .loadIndex addr => setIndex addr.val
  | .jumpOffset addr => do
    let offset ← reg (p.dialect.offsetReg addr)
    jump (addr.val + offset.toNat)
  | .random x mask => do setReg x ((← randomByte) &&& mask)
  | .draw x y n => draw p.dialect.spritesClip x y n
  | .skipKey x => do skipIf (← keyPressed (← reg x).toNat)
  | .skipNoKey x => do skipIf (!(← keyPressed (← reg x).toNat))
  | .readDelay x => do setReg x (← readDelay)
  | .waitKey x => waitKey x
  | .setDelay x => do
    let b ← reg x
    onCpu fun c => { c with delay := b.toNat }
  | .setSound x => do
    let b ← reg x
    onCpu fun c => { c with sound := b.toNat }
  | .addIndex x => do
    let b ← reg x
    onCpu fun c => { c with i := (c.i + b.toNat) % 0x10000 }
  | .glyph x => do
    let b ← reg x
    setIndex (p.fontAddress + b.toNat % 16 * Font.glyphSize)
  | .decimal x => do
    requireWindow 3
    writeWindow (decimalDigits (← reg x))
  | .store x => do
    requireWindow (x.val + 1)
    writeWindow ((← get).cpu.firstRegs x)
    advanceIndex p.dialect (x.val + 1)
  | .restore x => do
    requireWindow (x.val + 1)
    let bs ← readWindow (x.val + 1)
    onCpu (·.setFirstRegs bs)
    advanceIndex p.dialect (x.val + 1)
  | .unknown word => throw (.unsupportedOpcode word)

/-- carry out an instruction under the standard profile and with a generator of its own -/
def executeApart (ins : Instruction) : Effect Unit := fun s =>
  match execute {} ins { s with rng := Twister.ofSeed 0 } with
  | .ok () t => .ok () { t with rng := s.rng }
  | .error f t => .error f { t with rng := s.rng }

/-- take the word at the program counter and move the counter past it -/
def fetch : Effect UInt16 := do
  let s ← get
  if s.cpu.pc + 1 < s.memory.size then
    setPc (s.cpu.pc + 2)
    return Word.ofBytes (s.memory.byte s.cpu.pc) (s.memory.byte (s.cpu.pc + 1))
  else throw (.addressOutOfBounds (s.cpu.pc + 1 : Nat) s.memory.size)

/-- one instruction cycle; the instruction carried out -/
def step (p : Profile) : Effect Instruction := do
  let ins := Instruction.decode (← fetch)
  execute p ins
  modify fun s => { s with cycles := s.cycles + 1 }
  return ins

def tick : Effect Unit := onCpu Cpu.tick

/-- the processor as it is when switched on, and nothing counted; memory and screen stay -/
def resetCpu : Effect Unit := modify fun s => { s with cpu := {}, cycles := 0 }

end Effect

end Chip8
