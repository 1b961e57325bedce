/-
The machine: everything instructions act on, the configuration it was built from, and the clocks that drive it. It can
be driven one instruction at a time, by frames (the instructions of one timer beat, then the beat), or by elapsed
time.

An operation that fails leaves the machine as far as it came. Loading an image starts with a reset, and an image that
cannot be loaded leaves the machine as the reset left it; a file is read before that, so a file without an image
changes nothing. Loading reports on its way, and what was reported before a failure stays reported.
-/
import Chip8.Clock
import Chip8.Config.Basic
import Chip8.Execute
import Chip8.Notice
import Chip8.Rom.File

namespace Chip8

/-- a machine whose credit is counted in `κ` -/
structure Machine (κ : Type) where
  config : Config
  state : State
  clock : Clock κ
  deriving DecidableEq

namespace Machine

inductive Error where
  | memory (e : Memory.SizeError)
  | screen (e : Screen.Error)
  | fault (f : Fault)
  | load (e : Image.LoadError)
  | file (e : RomFile.Error)
  /-- time that runs backward -/
  | negativeTime
  /-- a number that is too large for credit to be counted in it -/
  | tooLarge
  /-- frames without a timer rate -/
  | noTimerRate
  deriving DecidableEq, Repr

def Error.message : Error → String
  | .memory e => e.message
  | .screen e => e.message
  | .fault f => f.message
  | .load e => e.message
  | .file e => e.message
  | .negativeTime => "elapsed_seconds must be non-negative."
  | .tooLarge => "int too large to convert to float"
  | .noTimerRate => "integer division or modulo by zero"

end Machine

/-- an operation on a machine; if it fails, the machine stays as far as it came -/
abbrev MachineM (κ : Type) (α : Type) := EStateM Machine.Error (Machine κ) α

/-- an operation that also reports, behind what has been reported already; its notices are kept if it fails -/
abbrev ReportM (κ : Type) (α : Type) := EStateM Machine.Error (Machine κ × List Notice) α

namespace Machine

open scoped Credit

variable {κ : Type} [Credit κ]

/-- the state after switching on: nothing but the font in memory, a dark screen, and the processor at the program -/
def powerOn (c : Config) (s : State) : Except Fault State := do
  let memory ← Font.load (Memory.zeros s.memory.size) c.fontStart
  return { s with cpu := { pc := c.programStart.toNat }, memory, screen := s.screen.clear, cycles := 0 }

/-- build a machine and switch it on. Without a seed any random bytes may be drawn: here they are those of seed zero, and
what is said of a machine in general is said of it with every generator -/
def create (c : Config) : Except Error (Machine κ) := do
  let memory ← (Memory.create c.memorySize).mapError .memory
  let screen ← (Screen.create c.width c.height).mapError .screen
  let state ← (powerOn c { memory, screen, rng := Twister.ofSeed (c.seed.getD 0) }).mapError .fault
  return { config := c, state, clock := Clock.zero }

def soundActive (m : Machine κ) : Bool := 0 < m.state.cpu.sound

def act {α : Type} (a : Effect α) : MachineM κ α := fun m =>
  match a m.state with
  | .ok r s => .ok r { m with state := s }
  | .error f s => .error (.fault f) { m with state := s }

/-- switch off and on; the random generator goes on where it was -/
def reset : MachineM κ Unit := fun m =>
  match powerOn m.config m.state with
  | .ok s => .ok () { m with state := s, clock := Clock.zero }
  | .error f => .error (.fault f) m

/-- put an image into memory; how many bytes it has -/
def place (image : Image) : MachineM κ Nat := do
  let m ← get
  match image.load m.state.memory m.config.programStart with
  | .ok (memory, count) =>
    set { m with state := { m.state with memory } }
    return count
  | .error e => throw (.load e)

def report (n : Notice) : ReportM κ Unit := modify fun (m, ns) => (m, ns ++ [n])

/-- an operation that reports nothing -/
def silently {α : Type} (a : MachineM κ α) : ReportM κ α := fun (m, ns) =>
  match a m with
  | .ok r m => .ok r (m, ns)
  | .error e m => .error e (m, ns)

/-- an operation with what it reports beside its answer -/
def reported {α : Type} (a : ReportM κ α) : MachineM κ (α × List Notice) := fun m =>
  match a (m, []) with
  | .ok r (m, ns) => .ok (r, ns) m
  | .error e (m, _) => .error e m

/-- reset, put an image into memory, and report it; how many bytes it has -/
def loading (image : Image) : ReportM κ Nat := do
  silently reset
  let count ← silently (place image)
  report (.romLoaded count)
  return count

/-- load the image in a file, which is read first -/
def loadingFile (f : RomFile) : ReportM κ Nat :=
  match f.image with
  | .ok image => loading image
  | .error e => throw (.file e)

def load (image : Image) : MachineM κ (Nat × List Notice) := reported (loading image)

def loadFile (f : RomFile) : MachineM κ (Nat × List Notice) := reported (loadingFile f)

def step : MachineM κ Instruction := do act (Effect.step (← get).config.profile)

def tick : MachineM κ Unit := act Effect.tick

/-- so many instructions, up to the first that fails -/
def steps : Nat → MachineM κ Unit
  | 0 => pure ()
  | n + 1 => do
    let _ ← step
    steps n

/-- how many instructions a frame has: the whole part of the ratio of the rates, and at least one -/
def frameSteps (c : Config) : Except Error Nat :=
  if c.timerHz = 0 then .error .noTimerRate else .ok (max 1 (c.cpuHz.fdiv c.timerHz).toNat)

/-- the instructions of one timer beat, then the beat; how many instructions there were -/
def runFrame : MachineM κ Nat := do
  let n ← ofExcept (frameSteps (← get).config)
  steps n
  tick
  return n

/-- a rate in the numbers that credit is counted in -/
def rate (hz : Int) : MachineM κ κ :=
  match Credit.ofInt? hz with
  | some r => pure r
  | none => throw .tooLarge

def beat : Beat → MachineM κ Unit
  | .step => do let _ ← step
  | .tick => tick

/-- do all beats that are due, `fuel` at most; how many instructions there were -/
def drive (rates : Rates κ) : (fuel : Nat) → (executed : Nat) → MachineM κ Nat
  | 0, executed => return executed
  | fuel + 1, executed => do
    let m ← get
    match m.clock.next? rates with
    | none => return executed
    | some (b, clock) =>
      set { m with clock }
      beat b
      drive rates fuel (if b = .step then executed + 1 else executed)

/-- let time pass: add to the credit of both clocks and do what is due. Every beat takes one from a credit, so as many
beats as the credits have whole parts are enough -/
def advance (elapsed : κ) : MachineM κ Nat := do
  if elapsed < Credit.zero then throw .negativeTime
  let cpu ← rate (← get).config.cpuHz
  modify fun m => { m with clock := { m.clock with steps := m.clock.steps + elapsed * cpu } }
  let timer ← rate (← get).config.timerHz
  modify fun m => { m with clock := { m.clock with ticks := m.clock.ticks + elapsed * timer } }
  drive ⟨cpu, timer⟩ (← get).clock.beatCount 0

end Machine

end Chip8
