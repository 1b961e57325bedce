/-
What the machine and its tools report while they work, beside their results.
-/
import Chip8.Fault

namespace Chip8

inductive Notice.Level where
  | info
  | warning
  deriving DecidableEq, Repr

inductive Notice where
  /-- a configuration key that means nothing; its text, if it has one -/
  | unknownKey (key : Option String)
  /-- a key of the dialect section that means nothing; its text, if it has one -/
  | unknownChoice (key : Option String)
  /-- an image of so many bytes is in memory -/
  | romLoaded (bytes : Nat)
  /-- a run came upon a breakpoint and rests at this address -/
  | breakpointHit (pc : Nat)
  /-- the instruction at this address could not be carried out -/
  | faulted (pc : Nat) (fault : Fault)
  deriving DecidableEq, Repr

namespace Notice

def level : Notice → Level
  | romLoaded _ | breakpointHit _ => .info
  | unknownKey _ | unknownChoice _ | faulted _ _ => .warning

/-- the wording of a notice; a notice of a key that has no text has none -/
def message : Notice → Option String
  | unknownKey key => key.map fun key => "Ignoring unknown config key '" ++ key ++ "'"
  | unknownChoice key => key.map fun key => "Ignoring unknown quirk '" ++ key ++ "'"
  | romLoaded bytes => some ("Loaded ROM: " ++ toString bytes ++ " bytes")
  | breakpointHit pc => some ("Breakpoint hit at PC: " ++ Hex.address pc)
  | faulted pc fault => some ("Execution stopped at PC " ++ Hex.address pc ++ ": " ++ fault.message)

def Level.name : Level → String
  | .info => "INFO"
  | .warning => "WARNING"

def text (n : Notice) : Option String := n.message.map fun message => n.level.name ++ " " ++ message

end Notice

end Chip8
