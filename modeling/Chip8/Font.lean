/-
The built-in font: sixteen hexadecimal digits, five bytes each, one bit per pixel in the upper half of a byte.
-/
import Chip8.Memory

namespace Chip8.Font

/-- bytes per digit -/
def glyphSize : Nat := 5

/-- where the font lies if nothing else is asked for -/
def standardStart : Nat := 0x050

/-- the digits 0 to F, one row of bytes each -/
def bytes : List UInt8 := [
  0xF0, 0x90, 0x90, 0x90, 0xF0,
  0x20, 0x60, 0x20, 0x20, 0x70,
  0xF0, 0x10, 0xF0, 0x80, 0xF0,
  0xF0, 0x10, 0xF0, 0x10, 0xF0,
  0x90, 0x90, 0xF0, 0x10, 0x10,
  0xF0, 0x80, 0xF0, 0x10, 0xF0,
  0xF0, 0x80, 0xF0, 0x90, 0xF0,
  0xF0, 0x10, 0x20, 0x40, 0x40,
  0xF0, 0x90, 0xF0, 0x90, 0xF0,
  0xF0, 0x90, 0xF0, 0x10, 0xF0,
  0xF0, 0x90, 0xF0, 0x90, 0x90,
  0xE0, 0x90, 0xE0, 0x90, 0xE0,
  0xF0, 0x80, 0x80, 0x80, 0xF0,
  0xE0, 0x90, 0x90, 0x90, 0xE0,
  0xF0, 0x80, 0xF0, 0x80, 0xF0,
  0xF0, 0x80, 0xF0, 0x80, 0x80]

def glyph (digit : Nat) : List UInt8 := (bytes.drop (digit * glyphSize)).take glyphSize

/-- put the font at an address, if it fits there -/
def load (m : Memory) (address : Int) : Except Fault Memory := do
  m.check address bytes.length
  return m.write address.toNat bytes

end Chip8.Font
