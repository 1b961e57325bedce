/-
The instruction set. `Instruction.decode` reads any word, with the words that mean nothing kept as `unknown`, and
`Instruction.encode` writes an instruction as the word it came from.
-/
import Chip8.Word

namespace Chip8

/-- what an instruction on two registers computes -/
inductive Arith where
  | copy
  | or
  | and
  | xor
  | add
  | sub
  | shr
  | subn
  | shl
  deriving DecidableEq, Repr

inductive Instruction where
  /-- a machine routine; nothing happens -/
  | sys (addr : Fin 4096)
  | clear
  | ret
  | jump (addr : Fin 4096)
  | call (addr : Fin 4096)
  /-- skip one instruction if Vx is the byte -/
  | skipEq (x : Fin 16) (byte : UInt8)
  /-- skip one instruction if Vx is not the byte -/
  | skipNe (x : Fin 16) (byte : UInt8)
  | skipEqReg (x y : Fin 16)
  | skipNeReg (x y : Fin 16)
  | load (x : Fin 16) (byte : UInt8)
  /-- add to Vx, leaving VF alone -/
  | add (x : Fin 16) (byte : UInt8)
  | arith (op : Arith) (x y : Fin 16)
  | loadIndex (addr : Fin 4096)
  /-- jump to an address plus a register -/
  | jumpOffset (addr : Fin 4096)
  /-- a random byte under a mask -/
  | random (x : Fin 16) (mask : UInt8)
  /-- draw the sprite of `n` rows at I -/
  | draw (x y n : Fin 16)
  /-- skip one instruction if key Vx is pressed -/
  | skipKey (x : Fin 16)
  /-- skip one instruction if key Vx is not pressed -/
  | skipNoKey (x : Fin 16)
  | readDelay (x : Fin 16)
  /-- stay here until a key is pressed -/
  | waitKey (x : Fin 16)
  | setDelay (x : Fin 16)
  | setSound (x : Fin 16)
  | addIndex (x : Fin 16)
  /-- point I at the font digit Vx -/
  | glyph (x : Fin 16)
  /-- the three decimal digits of Vx to memory -/
  | decimal (x : Fin 16)
  /-- V0 to Vx to memory -/
  | store (x : Fin 16)
  /-- V0 to Vx from memory -/
  | restore (x : Fin 16)
  | unknown (word : UInt16)
  deriving DecidableEq, Repr

namespace Arith

/-- the operation that the lowest digit names -/
def ofDigit? : Nat → Option Arith
  | 0x0 => some copy
  | 0x1 => some or
  | 0x2 => some and
  | 0x3 => some xor
  | 0x4 => some add
  | 0x5 => some sub
  | 0x6 => some shr
  | 0x7 => some subn
  | 0xE => some shl
  | _ => none

def digit : Arith → Nat
  | copy => 0x0
  | or => 0x1
  | and => 0x2
  | xor => 0x3
  | add => 0x4
  | sub => 0x5
  | shr => 0x6
  | subn => 0x7
  | shl => 0xE

end Arith

namespace Instruction

/-- the instructions that the low byte names under the top digit F -/
def decodeMisc (w : UInt16) : Instruction :=
  match w.toNat % 256 with
  | 0x07 => readDelay (Word.x w)
  | 0x0A => waitKey (Word.x w)
  | 0x15 => setDelay (Word.x w)
  | 0x18 => setSound (Word.x w)
  | 0x1E => addIndex (Word.x w)
  | 0x29 => glyph (Word.x w)
  | 0x33 => decimal (Word.x w)
  | 0x55 => store (Word.x w)
  | 0x65 => restore (Word.x w)
  | _ => unknown w

def decode (w : UInt16) : Instruction :=
  match Word.top w with
  | 0x0 => if w.toNat = 0x00E0 then clear else if w.toNat = 0x00EE then ret else sys (Word.nnn w)
  | 0x1 => jump (Word.nnn w)
  | 0x2 => call (Word.nnn w)
  | 0x3 => skipEq (Word.x w) (Word.nn w)
  | 0x4 => skipNe (Word.x w) (Word.nn w)
  | 0x5 => if w.toNat % 16 = 0 then skipEqReg (Word.x w) (Word.y w) else unknown w
  | 0x6 => load (Word.x w) (Word.nn w)
  | 0x7 => add (Word.x w) (Word.nn w)
  | 0x8 =>
    match Arith.ofDigit? (w.toNat % 16) with
    | some op => arith op (Word.x w) (Word.y w)
    | none => unknown w
  | 0x9 => if w.toNat % 16 = 0 then skipNeReg (Word.x w) (Word.y w) else unknown w
  | 0xA => loadIndex (Word.nnn w)
  | 0xB => jumpOffset (Word.nnn w)
  | 0xC => random (Word.x w) (Word.nn w)
  | 0xD => draw (Word.x w) (Word.y w) (Word.n w)
  | 0xE =>
    if w.toNat % 256 = 0x9E then skipKey (Word.x w)
    else if w.toNat % 256 = 0xA1 then skipNoKey (Word.x w)
    else unknown w
  | _ => decodeMisc w

/-- the word of a top digit, a register and a low byte -/
def wordXB (top : Nat) (x : Fin 16) (low : Nat) : UInt16 := UInt16.ofNat (top * 4096 + x.val * 256 + low)

/-- the word of a top digit, two registers and a lowest digit -/
def wordXY (top : Nat) (x y : Fin 16) (low : Nat) : UInt16 := UInt16.ofNat (top * 4096 + x.val * 256 + y.val * 16 + low)

/-- the word of a top digit and an address -/
def wordA (top : Nat) (addr : Fin 4096) : UInt16 := UInt16.ofNat (top * 4096 + addr.val)

def encode : Instruction → UInt16
  | sys addr => wordA 0x0 addr
  | clear => 0x00E0
  | ret => 0x00EE
  | jump addr => wordA 0x1 addr
  | call addr => wordA 0x2 addr
  | skipEq x byte => wordXB 0x3 x byte.toNat
  | skipNe x byte => wordXB 0x4 x byte.toNat
  | skipEqReg x y => wordXY 0x5 x y 0x0
  | load x byte => wordXB 0x6 x byte.toNat
  | add x byte => wordXB 0x7 x byte.toNat
  | arith op x y => wordXY 0x8 x y op.digit
  | skipNeReg x y => wordXY 0x9 x y 0x0
  | loadIndex addr => wordA 0xA addr
  | jumpOffset addr => wordA 0xB addr
  | random x mask => wordXB 0xC x mask.toNat
  | draw x y n => wordXY 0xD x y n.val
  | skipKey x => wordXB 0xE x 0x9E
  | skipNoKey x => wordXB 0xE x 0xA1
  | readDelay x => wordXB 0xF x 0x07
  | waitKey x => wordXB 0xF x 0x0A
  | setDelay x => wordXB 0xF x 0x15
  | setSound x => wordXB 0xF x 0x18
  | addIndex x => wordXB 0xF x 0x1E
  | glyph x => wordXB 0xF x 0x29
  | decimal x => wordXB 0xF x 0x33
  | store x => wordXB 0xF x 0x55
  | restore x => wordXB 0xF x 0x65
  | unknown word => word

end Instruction

end Chip8
