/-
Sessions: a machine under a debugger, and the processors saved from it. `Op` is everything that can be done in a
session, `perform` does it, and `after` does one thing after the other. An operation that fails leaves the session as
far as it came, and the next one goes on from there.

A machine that is built without a seed may draw any random bytes. What is said of all sessions with a machine is
therefore said of it with any generator (`Machine.withRng`).
-/
import Chip8.Debugger.Basic
import Chip8.Proofs.Act

namespace Chip8

/-- the machine with another random generator -/
def Machine.withRng {κ : Type} (m : Machine κ) (rng : Twister) : Machine κ := { m with state := { m.state with rng } }

/-- a machine under a debugger, and the processors saved from it, oldest first -/
structure Session (κ : Type) where
  debugger : Debugger κ
  saved : List Cpu := []

namespace Session

/-- what can be done in a session -/
inductive Op (κ : Type) where
  | step
  | tick
  | runFrame
  | advance (elapsed : κ)
  | reset
  | load (image : Image)
  | loadFile (file : RomFile)
  | setKey (key : Int) (pressed : Bool)
  | setPixel (x y : Int) (on : Bool)
  /-- one instruction under the debugger -/
  | debugStep
  /-- a run of the debugger; one that does not end within the fuel is not begun -/
  | run (limit stopDuring : Option Nat) (fuel : Nat)
  | addBreakpoint (b : Breakpoint)
  | updateBreakpoint (old new : Breakpoint)
  | removeBreakpoint (b : Breakpoint)
  | save
  /-- put a saved processor back; nothing happens if there is none of that number -/
  | restore (slot : Nat)

variable {κ : Type}

def machine (s : Session κ) : Machine κ := s.debugger.machine

def withMachine (s : Session κ) (m : Machine κ) : Session κ := { s with debugger := { s.debugger with machine := m } }

def withState (s : Session κ) (t : State) : Session κ := s.withMachine { s.machine with state := t }

def withBreakpoints (s : Session κ) (bs : List Breakpoint) : Session κ :=
  { s with debugger := { s.debugger with breakpoints := bs } }

/-- the session after an operation on its machine, as far as that came -/
def onMachine {α : Type} (a : MachineM κ α) (s : Session κ) : Session κ := s.withMachine (Act.left a s.machine)

variable [Credit κ]

/-- the session after an operation, whether it fails or not -/
def perform (s : Session κ) : Op κ → Session κ
  | .step => s.onMachine Machine.step
  | .tick => s.onMachine Machine.tick
  | .runFrame => s.onMachine Machine.runFrame
  | .advance elapsed => s.onMachine (Machine.advance elapsed)
  | .reset => s.onMachine Machine.reset
  | .load image => s.onMachine (Machine.load image)
  | .loadFile file => s.onMachine (Machine.loadFile file)
  | .setKey key pressed => s.onMachine (Machine.act (Effect.setKey key pressed))
  | .setPixel x y on =>
    match s.machine.state.screen.setPixel x y on with
    | .ok screen => s.withState { s.machine.state with screen }
    | .error _ => s
  | .debugStep => { s with debugger := Act.left Debugger.step s.debugger }
  | .run limit stopDuring fuel =>
    match s.debugger.run limit stopDuring fuel with
    | some stop => { s with debugger := stop.debugger }
    | none => s
  | .addBreakpoint b => s.withBreakpoints (Breakpoint.add s.debugger.breakpoints b)
  | .updateBreakpoint old new => s.withBreakpoints (Breakpoint.update s.debugger.breakpoints old new)
  | .removeBreakpoint b => s.withBreakpoints (Breakpoint.remove s.debugger.breakpoints b)
  | .save => { s with saved := s.saved ++ [s.machine.state.cpu] }
  | .restore slot =>
    match s.saved[slot]? with
    | some cpu => s.withState { s.machine.state with cpu }
    | none => s

def after (ops : List (Op κ)) (s : Session κ) : Session κ := ops.foldl perform s

def start (m : Machine κ) : Session κ := { debugger := { machine := m } }

/-- a property that every operation keeps is kept by one operation after the other -/
theorem after_induction {P : Session κ → Prop} (hP : ∀ s op, P s → P (s.perform op)) (ops : List (Op κ))
    {s : Session κ} (hs : P s) : P (after ops s) := by
  induction ops generalizing s with
  | nil => exact hs
  | cons op ops ih => exact ih (hP s op hs)

end Session

end Chip8
