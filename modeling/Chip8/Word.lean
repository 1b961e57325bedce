/-
The sixteen bits of an instruction word and the fields they are read as.
-/
namespace Chip8.Word

/-- the word of two bytes, high byte first -/
def ofBytes (high low : UInt8) : UInt16 := UInt16.ofNat (high.toNat * 256 + low.toNat)

/-- the highest of the four digits -/
def top (w : UInt16) : Nat := w.toNat / 4096

/-- the second digit -/
def x (w : UInt16) : Fin 16 := ⟨w.toNat / 256 % 16, Nat.mod_lt _ (by decide)⟩

/-- the third digit -/
def y (w : UInt16) : Fin 16 := ⟨w.toNat / 16 % 16, Nat.mod_lt _ (by decide)⟩

/-- the lowest digit -/
def n (w : UInt16) : Fin 16 := ⟨w.toNat % 16, Nat.mod_lt _ (by decide)⟩

/-- the low byte -/
def nn (w : UInt16) : UInt8 := UInt8.ofNat (w.toNat % 256)

/-- the lowest three digits -/
def nnn (w : UInt16) : Fin 4096 := ⟨w.toNat % 4096, Nat.mod_lt _ (by decide)⟩

end Chip8.Word
