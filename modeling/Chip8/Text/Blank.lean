/-
Blanks: the characters that count as space at the ends of a text, and the text between them.
-/
namespace Chip8.Text

/-- the code points of the blanks -/
def blanks : List Nat := [
  0x9, 0xA, 0xB, 0xC, 0xD, 0x1C, 0x1D, 0x1E, 0x1F, 0x20, 0x85, 0xA0, 0x1680, 0x2000, 0x2001, 0x2002, 0x2003, 0x2004,
  0x2005, 0x2006, 0x2007, 0x2008, 0x2009, 0x200A, 0x2028, 0x2029, 0x202F, 0x205F, 0x3000]

def isBlank (c : Char) : Bool := blanks.contains c.toNat

/-- a text without the characters of a class at either end -/
def trim (drop : Char → Bool) (cs : List Char) : List Char := ((cs.dropWhile drop).reverse.dropWhile drop).reverse

/-- a text without blanks at either end -/
def strip (cs : List Char) : List Char := trim isBlank cs

end Chip8.Text
