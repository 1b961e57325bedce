/-
Lines of a text. Line ends of other systems are read as one newline each, and a text is then cut at every character
that ends a line.
-/
namespace Chip8.Text

/-- carriage returns, alone or before a newline, become newlines -/
def newlines : List Char → List Char
  | '\r' :: '\n' :: cs => '\n' :: newlines cs
  | '\r' :: cs => '\n' :: newlines cs
  | c :: cs => c :: newlines cs
  | [] => []

/-- the code points of the characters that end a line -/
def lineEnds : List Nat := [0xA, 0xB, 0xC, 0xD, 0x1C, 0x1D, 0x1E, 0x85, 0x2028, 0x2029]

def endsLine (c : Char) : Bool := lineEnds.contains c.toNat

/-- the lines of a text whose line ends are single characters; an empty last line is none -/
def lines : List Char → List (List Char)
  | [] => []
  | c :: cs =>
    if endsLine c then [] :: lines cs
    else match lines cs with
      | [] => [[c]]
      | l :: ls => (c :: l) :: ls

end Chip8.Text
