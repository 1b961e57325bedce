/-
Reading along a text. A `Place` is where a reader stands; `Place.skip` takes it over everything that means nothing,
and `scalar?` takes a scalar off what is left. A scalar may go on over several lines: a line break in it is a space,
of several line breaks the first does not count, and spaces around them do not count either.
-/
import Chip8.Text.Blank
import Chip8.Yaml.Node

namespace Chip8.Yaml

def isSpace (c : Char) : Bool := c = ' ' || c = '\t'

def isBreak (c : Char) : Bool := c = '\n' || c = '\u2028' || c = '\u2029'

/-- the characters of lists and mappings -/
def brackets : List Char := ['[', ']', '\x7b', '\x7d']

/-- the character separates values in lists and mappings -/
def isFlowMark (c : Char) : Bool := c = ',' || c = '?' || brackets.contains c

/-- a mark before this text stands alone -/
def standsAlone : List Char → Bool
  | [] => true
  | c :: _ => isSpace c || isBreak c

/-- a colon before this text separates a key from its value -/
def endsKey (inFlow : Bool) (cs : List Char) : Bool :=
  standsAlone cs || (inFlow && cs.head?.any fun c => c = ',' || brackets.contains c)

/-- the text starts with a mark that stands alone: a dash for an item of a list, a question mark for a key, a colon for
the value of such a key -/
def marked (mark : Char) : List Char → Bool
  | [] => false
  | c :: cs => c = mark && standsAlone cs

/-- where a reader stands -/
structure Place where
  /-- how far in on its line -/
  column : Nat
  /-- an item or a key may start here -/
  fresh : Bool
  /-- what is left of the text -/
  rest : List Char

/-- the place after spaces, comments and line breaks; a comment may have been begun before -/
def placeAfter (comment : Bool) (column : Nat) (fresh : Bool) : List Char → Place
  | [] => ⟨column, fresh, []⟩
  | c :: cs =>
    if isBreak c then placeAfter false 0 true cs
    else if comment then placeAfter true column fresh cs
    else if c = ' ' then placeAfter false (column + 1) fresh cs
    else if c = '#' then placeAfter true column fresh cs
    else ⟨column, fresh, c :: cs⟩

/-- the next place where something stands -/
def Place.skip (p : Place) : Place := placeAfter false p.column p.fresh p.rest

/-- the place after a mark that stands alone; an item or a key may follow it at once -/
def Place.pastMark (p : Place) : Place := ⟨p.column + 1, true, p.rest.drop 1⟩

/-- what is left after spaces, comments and line breaks -/
def skip (cs : List Char) : List Char := (placeAfter false 0 false cs).rest

/-- what line breaks in a scalar stand for -/
def breaksText : List Char → List Char
  | ['\n'] => [' ']
  | '\n' :: more => more
  | breaks => breaks

/-- the text of a scalar written with line breaks; `spaces` and `breaks` are those just read -/
def unfold (spaces breaks : List Char) : List Char → List Char
  | [] => if breaks.isEmpty then spaces else breaksText breaks
  | c :: cs =>
    if isBreak c then unfold [] (breaks ++ [c]) cs
    else if isSpace c then
      if breaks.isEmpty then unfold (spaces ++ [c]) [] cs else unfold [] breaks cs
    else (if breaks.isEmpty then spaces else breaksText breaks) ++ c :: unfold [] [] cs

/-- the text between single quotes, in which a quote is written twice -/
def singleQuoted : List Char → Option (List Char × List Char)
  | '\x27' :: '\x27' :: cs => (singleQuoted cs).map fun (s, rest) => ('\x27' :: s, rest)
  | '\x27' :: cs => some ([], cs)
  | c :: cs => (singleQuoted cs).map fun (s, rest) => (c :: s, rest)
  | [] => none

/-- the text between double quotes; escapes are not read -/
def doubleQuoted : List Char → Option (List Char × List Char)
  | [] => none
  | c :: cs =>
    if c = Text.doubleQuote then some ([], cs)
    else if c = '\\' then none
    else (doubleQuoted cs).map fun (s, rest) => (c :: s, rest)

/-- how much of a line is a plain scalar: all up to a comment, a colon that ends a key, or in lists and mappings a mark
of theirs -/
def plainLength (inFlow : Bool) : List Char → Nat
  | [] => 0
  | c :: cs =>
    let comment := c = ' ' && cs.head? = some '#'
    if isBreak c || comment || (c = ':' && endsKey inFlow cs) || (inFlow && isFlowMark c) then 0
    else plainLength inFlow cs + 1

/-- take a plain scalar off the front as it is written. It goes on in the next line that has something of it, if that
line is indented enough; in lists and mappings any line is -/
def plainLines (inFlow : Bool) (indent : Nat) (cs : List Char) : List Char × List Char :=
  let line := cs.take (plainLength inFlow cs)
  let after := cs.drop line.length
  let gap := after.takeWhile fun c => c = ' ' || isBreak c
  let next := after.drop gap.length
  let column := (gap.reverse.takeWhile (· = ' ')).length
  if gap.any isBreak && (inFlow || indent ≤ column) && next.head? ≠ some '#' && plainLength inFlow next ≠ 0 then
    let (more, rest) := plainLines inFlow indent next
    (line ++ gap ++ more, rest)
  else (line, after)
termination_by cs.length
decreasing_by
  rename_i h
  have hgap : gap.length ≠ 0 := fun h0 => by simp [List.eq_nil_of_length_eq_zero h0] at h
  have hle : gap.length ≤ after.length := (List.takeWhile_sublist _).length_le
  have hafter : after.length ≤ cs.length := by simp only [after, List.length_drop]; omega
  have hnext : next.length = after.length - gap.length := List.length_drop
  exact Nat.lt_of_lt_of_le (by omega : next.length < after.length) hafter

/-- the characters that no plain scalar starts with -/
def indicators : List Char :=
  [',', '[', ']', '\x7b', '\x7d', '#', '&', '*', '!', '|', '>', '\x27', '\x22', '%', '@', '\x60']

/-- a plain scalar starts like this -/
def startsPlain (inFlow : Bool) : List Char → Bool
  | [] => false
  | c :: cs =>
    if c = '-' then !standsAlone cs
    else if c = '?' || c = ':' then !inFlow && !standsAlone cs
    else !indicators.contains c

/-- take a scalar off the front; a plain one goes on in lines that are indented enough -/
def scalar? (inFlow : Bool) (indent : Nat) (cs : List Char) : Option (Node × List Char) :=
  match cs with
  | [] => none
  | c :: rest =>
    if c = Text.singleQuote then (singleQuoted rest).map fun (s, rest) => (.quoted (unfold [] [] s), rest)
    else if c = Text.doubleQuote then (doubleQuoted rest).map fun (s, rest) => (.quoted (unfold [] [] s), rest)
    else if startsPlain inFlow cs then
      let (s, rest) := plainLines inFlow indent cs
      some (.plain (unfold [] [] (Text.trim isSpace s)), rest)
    else none

end Chip8.Yaml
