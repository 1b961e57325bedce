/-
Hexadecimal text. `Hex.fixed` writes the lowest digits of a number at a fixed width; `Hex.upper` and `Hex.address`
never cut a digit off, fill up with zeros and count a minus sign as part of the width.
-/
namespace Chip8.Hex

def upperDigit (n : Nat) : Char := if n < 10 then Char.ofNat (48 + n) else Char.ofNat (55 + n)

def lowerDigit (n : Nat) : Char := if n < 10 then Char.ofNat (48 + n) else Char.ofNat (87 + n)

/-- the lowest `width` digits of `n`, most significant first -/
def fixed (digit : Nat → Char) : (width : Nat) → (n : Nat) → List Char
  | 0, _ => []
  | width + 1, n => fixed digit width (n / 16) ++ [digit (n % 16)]

/-- how many digits `n` needs -/
def digitCount (n : Nat) : Nat := n.log2 / 4 + 1

/-- all digits of `n`, filled up with zeros to `width` -/
def padded (digit : Nat → Char) (width n : Nat) : List Char := fixed digit (max width (digitCount n)) n

/-- upper-case digits, filled up with zeros to `width` in all -/
def upper (width : Nat) (n : Int) : String :=
  .ofList (if n < 0 then '-' :: padded upperDigit (width - 1) n.natAbs else padded upperDigit width n.natAbs)

/-- an address: `0x` and lower-case digits, six characters or more in all -/
def address (n : Int) : String :=
  .ofList <|
    if n < 0 then '-' :: '0' :: 'x' :: padded lowerDigit 3 n.natAbs else '0' :: 'x' :: padded lowerDigit 4 n.natAbs

@[simp] theorem length_fixed (digit : Nat → Char) (width n : Nat) : (fixed digit width n).length = width := by
  induction width generalizing n with
  | zero => rfl
  | succ width ih => simp [fixed, ih]

end Chip8.Hex
