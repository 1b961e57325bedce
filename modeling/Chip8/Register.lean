/-
The registers by name, as a debugger shows them: their names, the groups they are listed in, their widths and values.
-/
import Chip8.Cpu

namespace Chip8

inductive Register where
  | v (x : Fin 16)
  | i
  | pc
  | sp
  | dt
  | st
  deriving DecidableEq, Repr

namespace Register

def name : Register → String
  | .v x => "V" ++ Hex.upper 1 x.val
  | .i => "I"
  | .pc => "PC"
  | .sp => "SP"
  | .dt => "DT"
  | .st => "ST"

def width : Register → Nat
  | .v _ | .sp | .dt | .st => 8
  | .i | .pc => 16

def general : List Register := (List.finRange 16).map .v

def all : List Register := general ++ [.i, .pc, .sp, .dt, .st]

def layout : List (String × List Register) :=
  [("General", general), ("Index/Pointers", [.i, .pc, .sp]), ("Timers", [.dt, .st])]

def value (c : Cpu) : Register → Int
  | .v x => (c.reg x).toNat
  | .i => c.i
  | .pc => c.pc
  | .sp => c.stack.top.val
  | .dt => c.delay
  | .st => c.sound

def ofName? (s : String) : Option Register := all.find? fun r => r.name == s

def text (c : Cpu) (r : Register) : String := r.name ++ "=" ++ Hex.upper (r.width / 4) (r.value c)

/-- all registers of a processor, one group a line -/
def table (c : Cpu) : String :=
  "\n".intercalate (layout.map fun (group, rs) => group ++ ": " ++ " ".intercalate (rs.map (text c)))

end Register

end Chip8
