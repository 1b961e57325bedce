/-
Numbers in documents: whole numbers in base 2, 8, 10, 16 or 60, numbers with a point in base 10 or 60, and the numbers
that no digits stand for. Underscores between digits do not count, but a number needs a digit: what has the form of a
whole number and no digit after the mark of its base is an error, and so is what has too many decimal digits.
-/
import Chip8.Config.Value
import Chip8.Yaml.Error

namespace Chip8.Yaml

def digitValue (c : Char) : Nat :=
  if '0' ≤ c ∧ c ≤ '9' then c.toNat - 48
  else if 'a' ≤ c ∧ c ≤ 'f' then c.toNat - 87
  else if 'A' ≤ c ∧ c ≤ 'F' then c.toNat - 55
  else 99

def digitsOnly (cs : List Char) : List Char := cs.filter (· ≠ '_')

def ofDigits (base : Nat) (cs : List Char) : Nat := (digitsOnly cs).foldl (fun n c => n * base + digitValue c) 0

/-- the number written with digits of a base, if there are any and not too many -/
def readDigits (base : Nat) (cs : List Char) : Except Error Nat :=
  let count := (digitsOnly cs).length
  if count = 0 then .error (.integer (.invalid base ""))
  else if base = 10 ∧ Integer.digitLimit < count then .error (.integer (.tooLong count))
  else .ok (ofDigits base cs)

/-- all characters are digits of a base or underscores, and there is one at least -/
def areDigits (base : Nat) (cs : List Char) : Bool := !cs.isEmpty && cs.all fun c => c = '_' || digitValue c < base

/-- a text is cut at every occurrence of a character -/
def cutAt (sep : Char) : List Char → List (List Char)
  | [] => [[]]
  | c :: cs =>
    if c = sep then [] :: cutAt sep cs
    else match cutAt sep cs with
      | [] => [[c]]
      | p :: ps => (c :: p) :: ps

/-- a place of a base 60 number after the first: one digit, or two of which the first is at most 5 -/
def isSixtieth : List Char → Bool
  | [c] => digitValue c < 10
  | [c, d] => digitValue c < 6 && digitValue d < 10
  | _ => false

/-- the number written with places of base 60, the first of them any number -/
def readPlaces (ds : List Char) (places : List (List Char)) : Except Error Nat := do
  return places.foldl (fun n p => n * 60 + ofDigits 10 p) (← readDigits 10 ds)

/-- the size of a scalar that has the form of a whole number -/
def natural? (cs : List Char) : Option (Except Error Nat) :=
  match cs with
  | ['0'] => some (.ok 0)
  | '0' :: 'b' :: ds => if areDigits 2 ds then some (readDigits 2 ds) else none
  | '0' :: 'x' :: ds => if areDigits 16 ds then some (readDigits 16 ds) else none
  | '0' :: ds => if areDigits 8 ds then some (.ok (ofDigits 8 ds)) else none
  | c :: _ =>
    if digitValue c < 10 then
      match cutAt ':' cs with
      | ds :: places => if areDigits 10 ds && places.all isSixtieth then some (readPlaces ds places) else none
      | [] => none
    else none
  | [] => none

/-- the sign of a number, and what follows it -/
def signed : List Char → Bool × List Char
  | '-' :: cs => (true, cs)
  | '+' :: cs => (false, cs)
  | cs => (false, cs)

/-- a scalar that has the form of a whole number -/
def integer? (cs : List Char) : Option (Except Error Int) :=
  let (negative, size) := signed cs
  (natural? size).map fun r => r.map fun n => if negative then -n else n

/-- the exponent that may end a number with a point -/
def exponent? : List Char → Option Int
  | [] => some 0
  | e :: s :: ds =>
    if (e = 'e' ∨ e = 'E') ∧ (s = '-' ∨ s = '+') ∧ !ds.isEmpty ∧ ds.all (digitValue · < 10) then
      some (if s = '-' then -(ofDigits 10 ds : Int) else ofDigits 10 ds)
    else none
  | _ => none

def isDigit (c : Char) : Bool := digitValue c < 10

/-- a number with a point in base 10 -/
def decimal? (cs : List Char) : Option Double := do
  let (negative, size) := signed cs
  let whole := size.takeWhile fun c => c = '_' || isDigit c
  let '.' :: rest := size.drop whole.length | none
  let fraction := rest.takeWhile fun c => c = '_' || isDigit c
  let exponent ← exponent? (rest.drop fraction.length)
  let startsWell : Bool := match whole, fraction with
    | c :: _, _ => c ≠ '_'
    | [], c :: _ => c ≠ '_' && cs.head? = some '.'
    | [], [] => false
  let places := (digitsOnly fraction).length
  if startsWell then some (.ofDecimal negative (ofDigits 10 (whole ++ fraction)) (exponent - places)) else none

/-- the sum of places of base 60, the last of them first. Weights, products and sums are all rounded to doubles; a
weight must not be too large for one -/
def sumPlaces (weight : Nat) (sum : Option Binary) : List (Option Binary) → Except Error (Option Binary)
  | [] => .ok sum
  | place :: places =>
    match Binary.nearest? weight 1 with
    | none => .error .tooManyPlaces
    | some w =>
      let product := place.bind w.times?
      sumPlaces (weight * 60) (sum.bind fun s => product.bind s.plus?) places

/-- a number with a point in base 60; the last place has the point and what follows it -/
def sexagesimal? (cs : List Char) : Option (Except Error Double) := do
  let (negative, size) := signed cs
  let first :: rest := cutAt ':' size | none
  let last :: middle := rest.reverse | none
  let whole := last.takeWhile (· ≠ '.')
  let '.' :: fraction := last.drop whole.length | none
  let fits := first.head?.any isDigit && areDigits 10 first && (whole :: middle).all isSixtieth &&
    fraction.all fun c => c = '_' || isDigit c
  if fits then
    let lastPlace := Binary.ofDecimal? (ofDigits 10 (whole ++ fraction)) (-(digitsOnly fraction).length)
    let places := (middle ++ [first]).map fun p => Binary.ofDecimal? (ofDigits 10 p) 0
    some ((sumPlaces 1 (some .zero) (lastPlace :: places)).map (.ofSize negative))
  else none

/-- the spellings of numbers that no digits stand for -/
def limits : List (String × Double) :=
  [".inf", ".Inf", ".INF", "+.inf", "+.Inf", "+.INF"].map (·, .infinite false) ++
    ["-.inf", "-.Inf", "-.INF"].map (·, .infinite true) ++ [".nan", ".NaN", ".NAN"].map (·, .undefined)

/-- a number, if the scalar has the form of one -/
def number? (cs : List Char) : Option (Except Error Value) :=
  (integer? cs).map (·.map .int) <|> (decimal? cs).map (.ok ∘ .float) <|> (sexagesimal? cs).map (·.map .float) <|>
    (limits.lookup (.ofList cs)).map (.ok ∘ .float)

end Chip8.Yaml
