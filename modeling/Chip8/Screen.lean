/-
The monochrome screen: `width * height` pixels, row after row. Sprites are drawn by switching pixels over; a sprite
that switches a lit pixel off collides.

`Screen.cells` lists the pixels a sprite touches, in the order it touches them; `Screen.draw` walks that list.
-/
namespace Chip8

/-- a screen; pixel `(x, y)` is entry `y * width + x` -/
structure Screen where
  width : Nat
  height : Nat
  pixels : Array Bool
  deriving DecidableEq, Repr

namespace Screen

def standardWidth : Nat := 64

def standardHeight : Nat := 32

/-- the first number that is too large to number pixels -/
def indexLimit : Nat := 0x8000000000000000

/-- what a screen refuses -/
inductive Error where
  /-- a width or height that is not positive -/
  | dimensions
  /-- more pixels than can be numbered -/
  | tooLarge
  /-- a pixel that the screen does not have -/
  | noSuchPixel (x y : Int) (width height : Nat)
  deriving DecidableEq, Repr

def Error.message : Error → String
  | .dimensions => "Screen dimensions must be positive."
  | .tooLarge => "cannot fit 'int' into an index-sized integer"
  | .noSuchPixel x y width height =>
    "Pixel (" ++ toString x ++ ", " ++ toString y ++ ") out of bounds for " ++ toString width ++ "x" ++
      toString height ++ " screen."

def dark (width height : Nat) : Screen := ⟨width, height, Array.replicate (width * height) false⟩

def create (width height : Int) : Except Error Screen :=
  if width ≤ 0 ∨ height ≤ 0 then .error .dimensions
  else if indexLimit ≤ width * height then .error .tooLarge
  else .ok (dark width.toNat height.toNat)

def clear (s : Screen) : Screen := dark s.width s.height

/-- whether the pixel in column `x` of row `y` is lit -/
def lit (s : Screen) (x y : Nat) : Bool := s.pixels.getD (y * s.width + x) false

def Contains (s : Screen) (x y : Int) : Prop := 0 ≤ x ∧ x < s.width ∧ 0 ≤ y ∧ y < s.height

instance (s : Screen) (x y : Int) : Decidable (s.Contains x y) := by unfold Contains; infer_instance

def pixel (s : Screen) (x y : Int) : Except Error Bool :=
  if s.Contains x y then .ok (s.lit x.toNat y.toNat) else .error (.noSuchPixel x y s.width s.height)

def setPixel (s : Screen) (x y : Int) (on : Bool) : Except Error Screen :=
  if s.Contains x y then .ok { s with pixels := s.pixels.setIfInBounds (y.toNat * s.width + x.toNat) on }
  else .error (.noSuchPixel x y s.width s.height)

/-- column `c` of a sprite row; column 0 is the highest of the eight bits, and a negative row has its two's complement
bits -/
def rowBit (row : Int) (c : Nat) : Bool := (row >>> (7 - c)) % 2 == 1

/-- the place a sprite pixel falls on: past an edge it is cut off, or comes back at the other side -/
def place (s : Screen) (clip : Bool) (x y : Nat) : Option (Nat × Nat) :=
  if clip then if x < s.width ∧ y < s.height then some (x, y) else none
  else some (x % s.width, y % s.height)

/-- the places a sprite row with its left end at `(x, y)` falls on -/
def rowCells (s : Screen) (clip : Bool) (x y : Nat) (row : Int) : List (Nat × Nat) :=
  (List.range 8).filterMap fun c => if rowBit row c then s.place clip (x + c) y else none

/-- the places a sprite with its top left corner at `(x, y)` falls on, row after row -/
def cells (s : Screen) (clip : Bool) (x y : Nat) : List Int → List (Nat × Nat)
  | [] => []
  | row :: rows => s.rowCells clip x y row ++ s.cells clip x (y + 1) rows

def toggle (s : Screen) (p : Nat × Nat) : Screen :=
  { s with pixels := s.pixels.modify (p.2 * s.width + p.1) (!·) }

/-- switch pixels over one after the other, noting whether one of them was lit; a pixel is looked at before it is
switched, so that nothing refers to the old screen any more -/
def toggleAll : Screen × Bool → List (Nat × Nat) → Screen × Bool :=
  List.foldl fun (s, collision) p =>
    let collision := collision || s.lit p.1 p.2
    (s.toggle p, collision)

/-- draw a sprite; its corner wraps round the screen, and the answer says whether it collided -/
def draw (s : Screen) (x y : Int) (rows : List Int) (clip : Bool := true) : Screen × Bool :=
  toggleAll (s, false) (s.cells clip (x % s.width).toNat (y % s.height).toNat rows)

def litCount (s : Screen) : Nat := s.pixels.count true

def rowText (s : Screen) (on off : String) (y : Nat) : String :=
  String.join ((s.pixels.extract (y * s.width) ((y + 1) * s.width)).toList.map fun p => if p then on else off)

/-- the screen as text, one line a row -/
def toText (s : Screen) (on : String := "#") (off : String := ".") : String :=
  "\n".intercalate ((List.range s.height).map (s.rowText on off))

end Screen

end Chip8
