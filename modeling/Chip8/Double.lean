/-
Doubles: numbers with a sign, 53 bits and an exponent of two. `Binary.nearest?` rounds a fraction to the nearest of
them, in whole numbers throughout, and a fraction in the middle between two goes to the one with the even mantissa.
All that becomes a double becomes one by it.
-/
namespace Chip8

/-- the size of a finite double: `mantissa * 2 ^ exponent` -/
structure Binary where
  mantissa : Nat
  exponent : Int
  deriving DecidableEq, Repr

namespace Binary

/-- the bit that the mantissa of a double has without being written; doubles without it have the least exponent -/
def hiddenBit : Nat := 0x10000000000000

def leastExponent : Int := -1074

def greatestExponent : Int := 971

def zero : Binary := ⟨0, leastExponent⟩

/-- the whole number nearest to a fraction, and of two that are equally near the even one -/
def roundDiv (num den : Nat) : Nat :=
  let floor := num / den
  match compare (2 * (num % den)) den with
  | .lt => floor
  | .gt => floor + 1
  | .eq => floor + floor % 2

/-- the exponent that gives a positive fraction a mantissa of 53 bits -/
def exponentOf (num den : Nat) : Int :=
  let e := (num.log2 : Int) - den.log2 - 53
  if (num <<< (-e).toNat) / (den <<< e.toNat) < 2 * hiddenBit then e else e + 1

/-- the double nearest to a fraction; nothing if it is too large for one -/
def nearest? (num den : Nat) : Option Binary :=
  if num = 0 then some zero
  else
    let e := max (exponentOf num den) leastExponent
    let m := roundDiv (num <<< (-e).toNat) (den <<< e.toNat)
    let b : Binary := if m = 2 * hiddenBit then ⟨hiddenBit, e + 1⟩ else ⟨m, e⟩
    if greatestExponent < b.exponent then none else some b

/-- the double nearest to `digits * 10 ^ exponent`; nothing if it is too large for one. Numbers that are far too large
or too small are not written out -/
def ofDecimal? (digits : Nat) (exponent : Int) : Option Binary :=
  if digits = 0 ∨ digits.log2 + 3 * exponent < -1100 then some zero
  else if 400 < exponent then none
  else nearest? (digits * Nat.pow 10 exponent.toNat) (Nat.pow 10 (-exponent).toNat)

/-- the size in units of the least double -/
def units (b : Binary) : Nat := b.mantissa <<< (b.exponent - leastExponent).toNat

def oneUnits : Nat := 1 <<< (-leastExponent).toNat

/-- the double nearest to a sum; nothing if it is too large for one -/
def plus? (a b : Binary) : Option Binary := nearest? (a.units + b.units) oneUnits

/-- the double nearest to a product; nothing if it is too large for one -/
def times? (a b : Binary) : Option Binary := nearest? (a.units * b.units) (oneUnits * oneUnits)

/-- the bits of a double, without the sign -/
def bits (b : Binary) : Nat :=
  if b.mantissa < hiddenBit then b.mantissa
  else ((b.exponent - leastExponent + 1).toNat <<< 52) + (b.mantissa - hiddenBit)

def value (b : Binary) : Rat := mkRat (b.mantissa <<< b.exponent.toNat : Nat) (1 <<< (-b.exponent).toNat)

end Binary

inductive Double where
  | finite (negative : Bool) (size : Binary)
  | infinite (negative : Bool)
  /-- no number -/
  | undefined
  deriving DecidableEq, Repr

namespace Double

/-- the double with a sign and a size; without a size it is infinite -/
def ofSize (negative : Bool) : Option Binary → Double
  | some size => finite negative size
  | none => infinite negative

/-- the double nearest to `digits * 10 ^ exponent`, with its sign -/
def ofDecimal (negative : Bool) (digits : Nat) (exponent : Int) : Double :=
  ofSize negative (Binary.ofDecimal? digits exponent)

/-- the double nearest to a whole number; nothing if it is too large for one -/
def ofInt? (n : Int) : Option Double := (Binary.nearest? n.natAbs 1).map (finite (n < 0))

def isZero : Double → Bool
  | finite _ size => size.mantissa = 0
  | _ => false

/-- the value, as a fraction, if it is finite -/
def value? : Double → Option Rat
  | finite negative size => some (if negative then -size.value else size.value)
  | _ => none

/-- the double as the hardware has it -/
def toFloat : Double → Float
  | finite negative size => Float.ofBits (UInt64.ofNat ((if negative then 1 <<< 63 else 0) + size.bits))
  | infinite negative => if negative then -1 / 0 else 1 / 0
  | undefined => 0 / 0

end Double

end Chip8
