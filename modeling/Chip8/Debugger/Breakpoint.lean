/-
Breakpoints: conditions under which a run stops. Conditions are told apart by all they say. Adding one that is on the
list already does nothing; exchanging one for another does not look whether the other is there.
-/
import Chip8.Register

namespace Chip8

inductive Breakpoint.Kind where
  /-- the program counter has the value -/
  | pc
  /-- the register has the value -/
  | registerValue
  /-- the register is not what it was before the last instruction -/
  | registerChange
  deriving DecidableEq, Repr

/-- a condition; one that lacks what its kind needs never holds -/
structure Breakpoint where
  kind : Breakpoint.Kind
  value : Option Int := none
  register : Option String := none
  enabled : Bool := true
  deriving DecidableEq, Repr

namespace Breakpoint

/-- the condition holds of a processor about to carry out an instruction -/
def holdsAt (b : Breakpoint) (c : Cpu) : Bool := b.enabled && b.kind = .pc && b.value = some (c.pc : Int)

/-- the condition holds of a processor that has just carried out an instruction -/
def holdsAfter (b : Breakpoint) (before after : Cpu) : Bool :=
  b.enabled && match b.register.bind Register.ofName? with
    | none => false
    | some r =>
      match b.kind with
      | .pc => false
      | .registerValue => b.value = some (r.value after)
      | .registerChange => r.value after ≠ r.value before

/-- the list with a condition at its end, unless it holds it already -/
def add (bs : List Breakpoint) (b : Breakpoint) : List Breakpoint := if b ∈ bs then bs else bs ++ [b]

/-- the list with the first such condition exchanged for another -/
def update (bs : List Breakpoint) (old new : Breakpoint) : List Breakpoint :=
  match bs with
  | [] => []
  | b :: rest => if b = old then new :: rest else b :: update rest old new

/-- the list without the first such condition -/
def remove (bs : List Breakpoint) (b : Breakpoint) : List Breakpoint := bs.erase b

end Breakpoint

end Chip8
