/-
Two clocks driven by elapsed time. Time that passes turns into credit: how many instructions and how many timer beats
are due, whole and fractions. `Clock.next?` takes the next beat out of the credit; of two beats that are both due, the
one that has been due for longer comes first, and an instruction comes before a timer beat if they have been due
equally long.

Credit is counted in any numbers of the class `Credit`: doubles when a machine runs, fractions when exact time is to
be reasoned about.
-/
import Chip8.Double

namespace Chip8

/-- numbers that credit can be counted in -/
class Credit (κ : Type) extends Add κ, Sub κ, Mul κ, Div κ, LE κ, LT κ where
  zero : κ
  one : κ
  decLe : DecidableLE κ
  decLt : DecidableLT κ
  /-- a whole number; nothing if it is too large -/
  ofInt? : Int → Option κ
  /-- how many times one can be taken away with at least one there; negative credit has none -/
  wholes : κ → Nat

namespace Credit

scoped instance {κ : Type} [Credit κ] : DecidableLE κ := decLe

scoped instance {κ : Type} [Credit κ] : DecidableLT κ := decLt

instance : Credit Float where
  zero := 0
  one := 1
  decLe := inferInstance
  decLt := inferInstance
  ofInt? n := (Double.ofInt? n).map Double.toFloat
  wholes c := c.toUInt64.toNat

instance : Credit Rat where
  zero := 0
  one := 1
  decLe := inferInstance
  decLt := inferInstance
  ofInt? n := some n
  wholes c := c.floor.toNat

end Credit

/-- what is due next -/
inductive Beat where
  /-- one instruction -/
  | step
  /-- one count of the timers -/
  | tick
  deriving DecidableEq, Repr

/-- how many instructions and timer beats a second has -/
structure Rates (κ : Type) where
  cpu : κ
  timer : κ
  deriving DecidableEq, Repr

/-- the credit of both clocks -/
structure Clock (κ : Type) where
  steps : κ
  ticks : κ
  deriving DecidableEq, Repr

namespace Clock

variable {κ : Type} [Credit κ]

open Credit

/-- nothing due -/
def zero : Clock κ := ⟨Credit.zero, Credit.zero⟩

/-- for how long the next beat of a clock has been due -/
def age (credit rate : κ) : κ := (credit - one) / rate

/-- the next beat due, and the credit that is left after it -/
def next? (rates : Rates κ) (c : Clock κ) : Option (Beat × Clock κ) :=
  if one ≤ c.steps then
    if one ≤ c.ticks ∧ ¬ age c.ticks rates.timer ≤ age c.steps rates.cpu then
      some (.tick, { c with ticks := c.ticks - one })
    else some (.step, { c with steps := c.steps - one })
  else if one ≤ c.ticks then some (.tick, { c with ticks := c.ticks - one })
  else none

/-- how many beats are due at most -/
def beatCount (c : Clock κ) : Nat := Credit.wholes c.steps + Credit.wholes c.ticks

end Clock

end Chip8
