/-
Days and moments in documents. A day is written with four, two and two digits. A moment may write months, days and hours
with one digit, and may have a fraction of a second, of which six digits count, and its clock's distance from universal
time.
-/
import Chip8.Yaml.Number

namespace Chip8.Yaml

/-- take digits off the front, at least `least` and at most `most` of them -/
def takeDigits? (least most : Nat) (cs : List Char) : Option (Nat × List Char) :=
  let ds := (cs.take most).takeWhile isDigit
  if least ≤ ds.length then some (ofDigits 10 ds, cs.drop ds.length) else none

/-- take a mark and digits after it off the front -/
def takeField? (mark : Char) (least : Nat) : List Char → Option (Nat × List Char)
  | [] => none
  | c :: cs => if c = mark then takeDigits? least 2 cs else none

/-- what follows the mark between a day and a time: a letter T, or space -/
def afterDay? : List Char → Option (List Char)
  | 'T' :: cs | 't' :: cs => some cs
  | ' ' :: cs => some (cs.dropWhile (· = ' '))
  | _ => none

/-- the millionths that the digits of a fraction stand for -/
def micros (ds : List Char) : Nat := ofDigits 10 (ds.take 6) * Nat.pow 10 (6 - ds.length)

/-- a clock's distance from universal time, if it is written -/
def offset? (cs : List Char) : Option (Option Int) :=
  match cs.dropWhile (· = ' ') with
  | [] => if cs.isEmpty then some none else none
  | ['Z'] => some (some 0)
  | mark :: rest => do
    let (hours, rest) ← if mark = '+' ∨ mark = '-' then takeDigits? 1 2 rest else none
    let (minutes, rest) ← if rest.isEmpty then some (0, []) else takeField? ':' 2 rest
    let distance : Int := hours * 60 + minutes
    if rest.isEmpty then some (some (if mark = '-' then -distance else distance)) else none

/-- a moment, if the scalar has the form of one -/
def moment? (cs : List Char) : Option (Except Calendar.Error Moment) := do
  let (year, rest) ← takeDigits? 4 4 cs
  let (month, rest) ← takeField? '-' 1 rest
  let (day, rest) ← takeField? '-' 1 rest
  let (hour, rest) ← takeDigits? 1 2 (← afterDay? rest)
  let (minute, rest) ← takeField? ':' 2 rest
  let (second, rest) ← takeField? ':' 2 rest
  let fraction := if rest.head? = some '.' then (rest.drop 1).takeWhile isDigit else []
  let offset ← offset? (if rest.head? = some '.' then rest.drop (fraction.length + 1) else rest)
  return Moment.ofParts year month day hour minute second (micros fraction) offset

/-- a day, if the scalar has the form of one -/
def day? (cs : List Char) : Option (Except Calendar.Error Day) := do
  let (year, rest) ← takeDigits? 4 4 cs
  let (month, rest) ← takeField? '-' 2 rest
  let (day, rest) ← takeField? '-' 2 rest
  if rest.isEmpty then some (Day.ofParts year month day) else none

/-- a day or a moment, if the scalar has the form of one -/
def stamp? (cs : List Char) : Option (Except Error Value) :=
  let r := (day? cs).map (·.map .day) <|> (moment? cs).map (·.map .moment)
  r.map (·.mapError .calendar)

end Chip8.Yaml
