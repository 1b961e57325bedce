/-
ROM files. The end of the path tells the format: `.hex` and `.ihx`, in any case, are Intel HEX text, all else is raw
bytes. Only the last component of the path counts, and slashes separate components. Text is taken to be UTF-8, as it is
where that is the encoding of the system.
-/
import Chip8.Rom.IntelHex
import Chip8.Text.Lines

namespace Chip8

/-- a file by its path and its content -/
structure RomFile where
  name : String
  content : ByteArray

namespace RomFile

/-- why a file holds no image -/
inductive Error where
  /-- text that is not UTF-8 -/
  | notText
  | record (e : IntelHex.Error)
  deriving DecidableEq, Repr

def Error.message : Error → String
  | .notText => "the file is not UTF-8 text"
  | .record e => e.message

def component (path : List Char) : List Char := (path.reverse.takeWhile (· ≠ '/')).reverse

/-- the end of a component from its last dot on; dots that only other dots precede start no ending -/
def ending (name : List Char) : List Char :=
  let tail := (name.reverse.takeWhile (· ≠ '.')).reverse
  let stem := name.take (name.length - tail.length - 1)
  if name.contains '.' ∧ stem.any (· ≠ '.') then '.' :: tail else []

def isIntelHex (f : RomFile) : Bool :=
  let e := (ending (component f.name.toList)).map Char.toLower
  e = ".hex".toList || e = ".ihx".toList

def image (f : RomFile) : Except Error Image :=
  if f.isIntelHex then
    match String.fromUTF8? f.content with
    | none => .error .notText
    | some text => (IntelHex.read (Text.lines (Text.newlines text.toList))).map .sparse |>.mapError .record
  else .ok (.raw f.content.toList)

end RomFile

end Chip8
