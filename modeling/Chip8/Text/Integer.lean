/-
Whole numbers as text, in base 10 or 16. Space around the number does not count, a sign may come first, in base 16
then `0x`, and single underscores may stand between digits. The digits may be those of any script. Numbers with more
decimal digits than `digitLimit` are neither read in base 10 nor shown.
-/
import Chip8.Text.Blank
import Chip8.Text.Digit
import Chip8.Text.Quoted

namespace Chip8.Integer

open Chip8.Text

inductive Error where
  | invalid (base : Nat) (text : String)
  /-- a text with more decimal digits than are read -/
  | tooLong (digits : Nat)
  /-- a number with more decimal digits than are shown -/
  | tooLarge
  deriving DecidableEq, Repr

/-- the most decimal digits that are read or shown -/
def digitLimit : Nat := 4300

/-- the wording of an error; of a long text the message shows the first two hundred characters -/
def Error.message : Error → String
  | .invalid base text =>
    "invalid literal for int() with base " ++ toString base ++ ": " ++ .ofList ((quoted text).toList.take 200)
  | .tooLong digits =>
    "Exceeds the limit (" ++ toString digitLimit ++ " digits) for integer string conversion: value has " ++
      toString digits ++ " digits; use sys.set_int_max_str_digits() to increase the limit"
  | .tooLarge =>
    "Exceeds the limit (" ++ toString digitLimit ++ " digits) for integer string conversion; " ++
      "use sys.set_int_max_str_digits() to increase the limit"

/-- space around a number; the four separator controls are blanks but not space here -/
def isSpace (c : Char) : Bool := isBlank c && !(0x1C ≤ c.toNat && c.toNat ≤ 0x1F)

/-- the sign, and what follows it -/
def sign : List Char → Int × List Char
  | '-' :: cs => (-1, cs)
  | '+' :: cs => (1, cs)
  | cs => (1, cs)

/-- the text without the mark of base 16, which an underscore may follow -/
def dropMark (base : Nat) : List Char → List Char
  | zero :: x :: cs =>
    if base = 16 ∧ decimalDigit? zero = some 0 ∧ (x = 'x' ∨ x = 'X') then
      match cs with
      | '_' :: rest => rest
      | rest => rest
    else zero :: x :: cs
  | cs => cs

/-- the character is part of a run of digits -/
def inRun (base : Nat) (c : Char) : Bool := c = '_' || (digitIn? base c).isSome

/-- the digits in a run that follow a digit; underscores stand alone and between digits -/
def digitsAfter? (base : Nat) : List Char → Option (List Nat)
  | [] => some []
  | '_' :: c :: cs => do
    let d ← digitIn? base c
    return d :: (← digitsAfter? base cs)
  | c :: cs => do
    let d ← digitIn? base c
    return d :: (← digitsAfter? base cs)

/-- the digits in a run, at least one -/
def digits? (base : Nat) : List Char → Option (List Nat)
  | [] => none
  | c :: cs => do
    let d ← digitIn? base c
    return d :: (← digitsAfter? base cs)

/-- the number that digits stand for -/
def ofDigits (base : Nat) (ds : List Nat) : Nat := ds.foldl (fun n d => n * base + d) 0

/-- the whole number that a text stands for. The run of digits is counted before what follows it is looked at -/
def parse (base : Nat) (text : String) : Except Error Int :=
  let (sgn, body) := sign (text.toList.dropWhile isSpace)
  let body := dropMark base body
  match digits? base (body.takeWhile (inRun base)) with
  | none => .error (.invalid base text)
  | some ds =>
    if base = 10 ∧ digitLimit < ds.length then .error (.tooLong ds.length)
    else if (body.dropWhile (inRun base)).all isSpace then .ok (sgn * ofDigits base ds)
    else .error (.invalid base text)

def text (n : Int) : Except Error String :=
  if digitLimit < (toString n.natAbs).length then .error .tooLarge else .ok (toString n)

end Chip8.Integer
