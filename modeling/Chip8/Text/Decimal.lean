/-
Doubles as text. `Double.text` shows a double with the fewest digits that single it out: positional from 0.0001 up to
16 digits before the point, with an exponent beyond, and never without a point or an exponent.
-/
import Chip8.Double

namespace Chip8

namespace Binary

/-- compare `d * 10 ^ p` with `x * 2 ^ q` -/
def compareScaled (d : Nat) (p : Int) (x : Nat) (q : Int) : Ordering :=
  compare ((d * Nat.pow 10 p.toNat) <<< (-q).toNat) ((x * Nat.pow 10 (-p).toNat) <<< q.toNat)

/-- no double is nearer to `d * 10 ^ p` than this one, and a tie goes to the double with the even mantissa -/
def isNearest (b : Binary) (d : Nat) (p : Int) : Bool :=
  let down := if b.mantissa = hiddenBit ∧ leastExponent < b.exponent then 1 else 2
  let low := compareScaled d p (4 * b.mantissa - down) (b.exponent - 2)
  let high := compareScaled d p (4 * b.mantissa + 2) (b.exponent - 2)
  if b.mantissa % 2 = 0 then low.isGE && high.isLE else low.isGT && high.isLT

/-- the multiple of `10 ^ p` that stands for a double: of its two neighbours the nearer one, if one of them singles it
out -/
def onGrid (b : Binary) (p : Int) : Option Nat :=
  let scaled := (b.mantissa * Nat.pow 10 (-p).toNat) <<< b.exponent.toNat
  let floor := scaled / (Nat.pow 10 p.toNat <<< (-b.exponent).toNat)
  let nearer := compareScaled (2 * floor + 1) p (2 * b.mantissa) b.exponent
  let up := nearer = .lt || (nearer = .eq && floor % 2 = 1)
  let choices := if up then [floor + 1, floor] else [floor, floor + 1]
  choices.find? fun d => d ≠ 0 && b.isNearest d p

/-- the fewest digits that single out a double, and the power of ten of the last -/
def shortest (b : Binary) : Nat × Int :=
  let powers := (List.range 660).map fun (k : Nat) => 309 - (k : Int)
  (powers.findSome? fun p => (b.onGrid p).map fun d => (d, p)).getD (0, 0)

end Binary

namespace Double

/-- digits, with a decimal point after the first `point` of them -/
def positional (digits : List Char) (point : Int) : List Char :=
  if point ≤ 0 then '0' :: '.' :: List.replicate (-point).toNat '0' ++ digits
  else if digits.length ≤ point then digits ++ List.replicate (point.toNat - digits.length) '0' ++ ['.', '0']
  else digits.take point.toNat ++ '.' :: digits.drop point.toNat

/-- digits, a decimal point after the first of them, and an exponent of two digits or more -/
def scientific (digits : List Char) (exponent : Int) : List Char :=
  let size := (toString exponent.natAbs).toList
  let fraction := if digits.length = 1 then [] else '.' :: digits.drop 1
  let sign := if exponent < 0 then '-' else '+'
  digits.take 1 ++ fraction ++ 'e' :: sign :: List.replicate (2 - size.length) '0' ++ size

def sizeText (b : Binary) : List Char :=
  if b.mantissa = 0 then "0.0".toList
  else
    let (n, p) := b.shortest
    let digits := (toString n).toList
    let point := digits.length + p
    if -4 < point ∧ point ≤ 16 then positional digits point else scientific digits (point - 1)

/-- a text with a minus sign in front if the number is negative -/
def withSign (negative : Bool) (cs : List Char) : String := .ofList (if negative then '-' :: cs else cs)

def text : Double → String
  | finite negative size => withSign negative (sizeText size)
  | infinite negative => withSign negative "inf".toList
  | undefined => "nan"

end Double

end Chip8
