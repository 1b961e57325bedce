/-
Interpreters of this machine disagree on five instructions. A `Dialect` says which reading is meant, and a `Profile`
adds where the font lies.
-/
import Chip8.Font

namespace Chip8

/-- the choices on which interpreters differ -/
structure Dialect where
  /-- the shifts read Vy instead of Vx -/
  shiftReadsVy : Bool := false
  /-- storing and restoring registers moves I past the bytes used -/
  transferAdvancesI : Bool := true
  /-- the jump with offset adds Vx, x being the top digit of the address, instead of V0 -/
  jumpAddsVx : Bool := false
  /-- the bitwise operations clear VF -/
  logicClearsFlag : Bool := true
  /-- sprites are cut off at the edges instead of coming back at the other side -/
  spritesClip : Bool := true
  deriving DecidableEq, Repr

/-- what instructions depend on besides the state they act on -/
structure Profile where
  dialect : Dialect := {}
  /-- where the font digits are taken to lie -/
  fontAddress : Int := Font.standardStart
  deriving DecidableEq, Repr

end Chip8
