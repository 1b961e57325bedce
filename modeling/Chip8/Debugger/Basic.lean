/-
A debugger: a machine, the breakpoints set for it, a record of the latest instructions, and the fault that ended the
latest run. `Debugger.run` carries out instructions until something stops it; the instruction it starts with is
carried out even if a breakpoint is set there, so a run can be continued from where a breakpoint stopped it. A run
notes and reports faults of the program; any other fault ends it without that.
-/
import Chip8.Debugger.Breakpoint
import Chip8.Machine

namespace Chip8

/-- a machine under observation -/
structure Debugger (κ : Type) where
  machine : Machine κ
  breakpoints : List Breakpoint := []
  /-- the latest instructions with the addresses they came from, newest first -/
  trace : List (Nat × Instruction) := []
  lastFault : Option Fault := none
  deriving DecidableEq

namespace Debugger

def traceLimit : Nat := 256

inductive StopReason where
  | breakpoint
  | fault
  | stepLimit
  | stopped
  /-- a fault that is not the program's -/
  | unhandled (f : Fault)
  deriving DecidableEq, Repr

structure Stop (κ : Type) where
  reason : StopReason
  notices : List Notice
  debugger : Debugger κ

variable {κ : Type}

def cpu (d : Debugger κ) : Cpu := d.machine.state.cpu

/-- one instruction, which goes on record unless it fails. The debugger is taken apart first: nothing refers to the old
memory and screen while the instruction changes them -/
def step : EStateM Fault (Debugger κ) Instruction := fun ⟨⟨config, state, clock⟩, breakpoints, trace, lastFault⟩ =>
  let pc := state.cpu.pc
  match Effect.step config.profile state with
  | .ok ins state => .ok ins ⟨⟨config, state, clock⟩, breakpoints, ((pc, ins) :: trace).take traceLimit, lastFault⟩
  | .error f state => .error f ⟨⟨config, state, clock⟩, breakpoints, trace, lastFault⟩

/-- a breakpoint is set on the address the processor is at -/
def breaksAt (d : Debugger κ) : Bool := d.breakpoints.any (·.holdsAt d.cpu)

/-- a breakpoint watches something that the instruction just carried out brought about -/
def breaksAfter (d : Debugger κ) (before : Cpu) : Bool := d.breakpoints.any (·.holdsAfter before d.cpu)

/-- go on with a run that has carried out `executed` instructions; nothing if `fuel` runs out first -/
def runFrom (limit stopDuring : Option Nat) : (fuel : Nat) → (executed : Nat) → Debugger κ → Option (Stop κ)
  | 0, _, _ => none
  | fuel + 1, executed, d =>
    if limit.any (· ≤ executed) then some ⟨.stepLimit, [], d⟩
    else if executed ≠ 0 ∧ d.breaksAt then some ⟨.breakpoint, [.breakpointHit d.cpu.pc], d⟩
    else
      let before := d.cpu
      match step d with
      | .error f after =>
        if f.byProgram then some ⟨.fault, [.faulted before.pc f], { after with lastFault := some f }⟩
        else some ⟨.unhandled f, [], after⟩
      | .ok _ after =>
        if after.breaksAfter before then some ⟨.breakpoint, [.breakpointHit after.cpu.pc], after⟩
        else if stopDuring = some (executed + 1) then some ⟨.stopped, [], after⟩
        else runFrom limit stopDuring fuel (executed + 1) after

/-- carry out instructions until a breakpoint, a fault, the limit, or a stop asked for during the given instruction;
nothing if `fuel` runs out first -/
def run (limit stopDuring : Option Nat) (fuel : Nat) (d : Debugger κ) : Option (Stop κ) :=
  runFrom limit stopDuring fuel 0 { d with lastFault := none }

end Debugger

end Chip8
