/-
Intel HEX. Every line that starts with a colon is a record: a length, an address, a kind, data and a checksum, in
hexadecimal, with a comment after a semicolon. Data records put their bytes at a base address plus their own; two
kinds of record set the base, one ends the file, and start addresses are read over.

`Record.ofLine` reads one record and `read` a whole file; every way in which a record can be wrong is a constructor of
`Error`.
-/
import Chip8.Rom.Image
import Chip8.Text.Integer

namespace Chip8.IntelHex

open Chip8.Text

/-- why a file was refused; line numbers start at one -/
inductive Error where
  | tooShort (line : Nat) (text : String)
  /-- a length, address, kind or checksum that is no number -/
  | badField (line : Nat) (text : String) (cause : Integer.Error)
  | lengthMismatch (line : Nat)
  /-- the data is not made of digit pairs; the place in the data -/
  | badData (position : Nat)
  | checksumMismatch (line : Nat) (computed expected : Int)
  | unknownKind (kind : Int) (line : Nat)
  /-- a base record without data -/
  | badBase (cause : Integer.Error)
  deriving DecidableEq, Repr

def Error.message : Error → String
  | .tooShort line text => "Invalid Intel HEX record format on line " ++ toString line ++ ": Too short - " ++ text
  | .badField line text cause =>
    "Error parsing Intel HEX line " ++ toString line ++ ": " ++ text ++ " - " ++ cause.message
  | .lengthMismatch line => "Data length mismatch on line " ++ toString line
  | .badData position => "non-hexadecimal number found in fromhex() arg at position " ++ toString position
  | .checksumMismatch line computed expected =>
    "Checksum mismatch on line " ++ toString line ++ ": Calculated " ++ Hex.upper 2 computed ++ ", Expected " ++
      Hex.upper 2 expected
  | .unknownKind kind line => "Unknown Intel HEX record type " ++ Hex.upper 2 kind ++ " on line " ++ toString line
  | .badBase cause => cause.message

def hexValue? (c : Char) : Option Nat :=
  if '0' ≤ c ∧ c ≤ '9' then some (c.toNat - 48)
  else if 'a' ≤ c ∧ c ≤ 'f' then some (c.toNat - 87)
  else if 'A' ≤ c ∧ c ≤ 'F' then some (c.toNat - 55)
  else none

/-- space that may stand between digit pairs -/
def isGap (c : Char) : Bool := c = ' ' || (0x9 ≤ c.toNat && c.toNat ≤ 0xD)

/-- bytes written as digit pairs, or the place of the first character that does not fit, counted from `position` -/
def pairs (position : Nat) : List Char → Except Nat (List UInt8)
  | [] => .ok []
  | c :: cs =>
    if isGap c then pairs (position + 1) cs
    else match hexValue? c, cs with
      | none, _ => .error position
      | some _, [] => .error (position + 1)
      | some high, d :: rest =>
        match hexValue? d with
        | none => .error (position + 1)
        | some low => do return UInt8.ofNat (high * 16 + low) :: (← pairs (position + 2) rest)

/-- bytes written as digit pairs; a character outside ASCII is what does not fit before any other -/
def bytes (cs : List Char) : Except Nat (List UInt8) :=
  match cs.findIdx? (128 ≤ ·.toNat) with
  | some position => .error position
  | none => pairs 0 cs

/-- a record whose length and checksum are right -/
structure Record where
  address : Int
  kind : Int
  /-- the data as written -/
  digits : String
  data : List UInt8
  deriving DecidableEq, Repr

def total (data : List UInt8) : Nat := data.foldr (fun b n => b.toNat + n) 0

/-- the checksum that makes the sum of all bytes of a record a multiple of 256 -/
def checksum (length address kind : Int) (data : List UInt8) : Int :=
  -(length + address / 256 + address % 256 + kind + total data) % 256

/-- the part of a line before a comment, without blanks at the ends -/
def body (line : List Char) : List Char :=
  let line := strip line
  if line.contains ';' then strip (line.takeWhile (· ≠ ';')) else line

def slice (cs : List Char) (start stop : Nat) : String := .ofList ((cs.take stop).drop start)

/-- the record in a line that starts with a colon; the line is already without its comment -/
def Record.ofLine (number : Nat) (line : List Char) : Except Error Record := do
  let n := line.length
  if n < 11 then throw (.tooShort number (.ofList line))
  let field (start stop : Nat) : Except Error Int :=
    (Integer.parse 16 (slice line start stop)).mapError (.badField number (.ofList line))
  let length ← field 1 3
  let address ← field 3 7
  let kind ← field 7 9
  let expected ← field (n - 2) n
  let digits := slice line 9 (n - 2)
  if (digits.length : Int) ≠ 2 * length then throw (.lengthMismatch number)
  let data ← (bytes digits.toList).mapError .badData
  let computed := checksum length address kind data
  if computed ≠ expected then throw (.checksumMismatch number computed expected)
  return { address, kind, digits, data }

/-- the number that the data of a base record stands for -/
def Record.base (r : Record) : Except Error Int := (Integer.parse 16 r.digits).mapError .badBase

/-- what has been read so far: the base address, and the cells in the order in which they were put -/
structure Progress where
  base : Int := 0
  cells : Array (Int × Int) := #[]
  deriving DecidableEq, Repr

/-- bytes put at consecutive addresses -/
def putAll (cells : Array (Int × Int)) (address : Int) : List UInt8 → Array (Int × Int)
  | [] => cells
  | b :: bs => putAll (cells.push (address, b.toNat)) (address + 1) bs

def Progress.image (s : Progress) : Sparse := .ofList s.cells.toList

/-- read on after a record; nothing if the record ends the file -/
def Progress.next (number : Nat) (s : Progress) (r : Record) : Except Error (Option Progress) :=
  match r.kind with
  | 0 => .ok (some { s with cells := putAll s.cells (s.base + r.address) r.data })
  | 1 => .ok none
  | 2 => do return some { s with base := (← r.base) * 0x10 }
  | 3 => .ok (some s)
  | 4 => do return some { s with base := (← r.base) * 0x10000 }
  | 5 => .ok (some s)
  | kind => .error (.unknownKind kind number)

/-- read lines on, the first of them having this number -/
def readFrom (number : Nat) (s : Progress) : List (List Char) → Except Error Sparse
  | [] => .ok s.image
  | line :: rest =>
    if (strip line).head? = some ':' then do
      let r ← Record.ofLine number (body line)
      match ← s.next number r with
      | none => return s.image
      | some s => readFrom (number + 1) s rest
    else readFrom (number + 1) s rest

/-- the image in the lines of a file -/
def read (lines : List (List Char)) : Except Error Sparse := readFrom 1 {} lines

end Chip8.IntelHex
