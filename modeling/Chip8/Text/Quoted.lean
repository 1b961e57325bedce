/-
Quoted text, as messages show it. The text stands between single quotes, or between double quotes if it holds a single
quote and no double quote. Backslashes, the quote in use and characters that cannot be shown are escaped.
-/
import Chip8.Text.Hex
import Chip8.Text.Printable

namespace Chip8.Text

def singleQuote : Char := '\x27'

def doubleQuote : Char := '\x22'

/-- the quote that a text is put between -/
def quoteFor (cs : List Char) : Char :=
  if cs.contains singleQuote && !cs.contains doubleQuote then doubleQuote else singleQuote

/-- a character that cannot be shown, by number -/
def numberEscape (c : Char) : List Char :=
  if c.toNat < 0x100 then '\\' :: 'x' :: Hex.fixed Hex.lowerDigit 2 c.toNat
  else if c.toNat < 0x10000 then '\\' :: 'u' :: Hex.fixed Hex.lowerDigit 4 c.toNat
  else '\\' :: 'U' :: Hex.fixed Hex.lowerDigit 8 c.toNat

/-- a character between quotes -/
def escape (quote c : Char) : List Char :=
  if c = quote ∨ c = '\\' then ['\\', c]
  else if c = '\t' then ['\\', 't']
  else if c = '\n' then ['\\', 'n']
  else if c = '\r' then ['\\', 'r']
  else if isPrintable c then [c]
  else numberEscape c

def quoted (s : String) : String :=
  let quote := quoteFor s.toList
  .ofList (quote :: s.toList.flatMap (escape quote) ++ [quote])

end Chip8.Text
