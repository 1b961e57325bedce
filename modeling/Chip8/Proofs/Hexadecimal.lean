/-
Hexadecimal digits read back. Digits may be of either case, one by one, so a text is related to the values of its digits
(`Hex.Spells`) rather than computed from them. Bytes are spelled by their halves (`Hex.halves`).

- `Integer.parse_of_spells`: digits are read as the number they stand for; `ofDigits_halves` is that number for bytes.
- `Hex.parse_upper`: a number is read back from its text.
- `IntelHex.bytes_of_spells`: digit pairs are read as the bytes they stand for.
-/
import Mathlib.Data.List.TakeWhile
import Mathlib.Tactic
import Chip8.Rom.IntelHex

namespace Chip8

open Text

namespace Hex

/-! ## Digits -/

/-- the character is the digit of this value, in one case or the other -/
def IsDigit (n : Nat) (c : Char) : Prop := n < 16 ∧ (c = upperDigit n ∨ c = lowerDigit n)

instance (n : Nat) (c : Char) : Decidable (IsDigit n c) := inferInstanceAs (Decidable (_ ∧ _))

/-- what holds of the sixteen digits in both cases holds of every digit -/
theorem IsDigit.of_table {P : Nat → Char → Prop} (htable : ∀ n < 16, P n (upperDigit n) ∧ P n (lowerDigit n)) {n : Nat}
    {c : Char} (h : IsDigit n c) : P n c := by
  obtain ⟨hn, rfl | rfl⟩ := h
  · exact (htable n hn).1
  · exact (htable n hn).2

section Digits

variable {n : Nat} {c : Char} (h : IsDigit n c)
include h

theorem IsDigit.digitIn : digitIn? 16 c = some n := h.of_table (P := fun n c => digitIn? 16 c = some n) (by decide)

theorem IsDigit.hexValue : IntelHex.hexValue? c = some n :=
  h.of_table (P := fun n c => IntelHex.hexValue? c = some n) (by decide)

theorem IsDigit.not_blank : isBlank c = false := h.of_table (P := fun _ c => isBlank c = false) (by decide)

theorem IsDigit.not_gap : IntelHex.isGap c = false := h.of_table (P := fun _ c => IntelHex.isGap c = false) (by decide)

theorem IsDigit.ascii : c.toNat < 128 := h.of_table (P := fun _ c => c.toNat < 128) (by decide)

/-- no digit is a mark of another kind -/
theorem IsDigit.not_mark : c ∉ ['-', '+', '_', 'x', 'X', ';'] :=
  h.of_table (P := fun _ c => c ∉ ['-', '+', '_', 'x', 'X', ';']) (by decide)

end Digits

/-! ## Texts -/

/-- the characters are digits of these values, one by one -/
def Spells (ns : List Nat) (cs : List Char) : Prop := List.Forall₂ IsDigit ns cs

instance (ns : List Nat) (cs : List Char) : Decidable (Spells ns cs) := inferInstanceAs (Decidable (List.Forall₂ _ _ _))

theorem Spells.length {ns : List Nat} {cs : List Char} (h : Spells ns cs) : cs.length = ns.length := h.length_eq.symm

/-- what holds of digits holds of every character -/
theorem Spells.forall {ns : List Nat} {cs : List Char} {P : Char → Prop} (h : Spells ns cs)
    (hP : ∀ {n c}, IsDigit n c → P c) (c : Char) (hc : c ∈ cs) : P c := by
  induction h with
  | nil => cases hc
  | cons hdigit _ ih =>
    rcases List.mem_cons.1 hc with rfl | hrest
    · exact hP hdigit
    · exact ih hrest

/-- the halves of bytes, the higher one first -/
def halves (bs : List UInt8) : List Nat := bs.flatMap fun b => [b.toNat / 16, b.toNat % 16]

theorem halves_cons (b : UInt8) (bs : List UInt8) : halves (b :: bs) = b.toNat / 16 :: b.toNat % 16 :: halves bs := rfl

theorem halves_append (as bs : List UInt8) : halves (as ++ bs) = halves as ++ halves bs := List.flatMap_append

theorem length_halves (bs : List UInt8) : (halves bs).length = 2 * bs.length := by
  induction bs with
  | nil => rfl
  | cons b bs ih =>
    rw [halves_cons, List.length_cons, List.length_cons, ih, List.length_cons]
    omega

/-- the number that bytes stand for, the highest one first -/
def bigEndian (bs : List UInt8) : Nat := bs.foldl (fun n b => n * 256 + b.toNat) 0

theorem ofDigits_halves (bs : List UInt8) : Integer.ofDigits 16 (halves bs) = bigEndian bs := by
  have hbyte (n : Nat) (b : UInt8) : (n * 16 + b.toNat / 16) * 16 + b.toNat % 16 = n * 256 + b.toNat := by omega
  unfold Integer.ofDigits halves bigEndian
  simp only [List.foldl_flatMap, List.foldl_cons, List.foldl_nil, hbyte]

theorem bigEndian_byte (b : UInt8) : bigEndian [b] = b.toNat := Nat.zero_add _

theorem bigEndian_pair (high low : UInt8) : bigEndian [high, low] = high.toNat * 256 + low.toNat := by
  rw [bigEndian, List.foldl_cons, List.foldl_cons, List.foldl_nil, Nat.zero_mul, Nat.zero_add]

theorem toNat_ofNat {n : Nat} (h : n < 256) : (UInt8.ofNat n).toNat = n := UInt8.toNat_ofNat_of_lt' h

/-- an address is the number that its two bytes stand for -/
theorem bigEndian_word (w : UInt16) :
    bigEndian [UInt8.ofNat (w.toNat / 256), UInt8.ofNat (w.toNat % 256)] = w.toNat := by
  have hword : w.toNat < 65536 := w.toNat_lt
  rw [bigEndian_pair, toNat_ofNat (by omega), toNat_ofNat (by omega)]
  omega

end Hex

/-! ## Numbers -/

namespace Integer

open Hex

variable {n : Nat} {c : Char} {ns : List Nat} {cs : List Char}

theorem digitsAfter?_of_spells (h : Spells ns cs) : digitsAfter? 16 cs = some ns := by
  induction h with
  | nil => rfl
  | cons hdigit _ ih =>
    have hmark := hdigit.not_mark
    simp only [List.mem_cons, not_or] at hmark
    simp [digitsAfter?, hdigit.digitIn, ih, hmark]

theorem inRun_of_isDigit (h : IsDigit n c) : inRun 16 c = true := by
  rw [inRun, h.digitIn]
  exact Bool.or_true _

/-- digits are read as the number they stand for: there is no space, sign or mark in front of them -/
theorem parse_of_spells (h : Spells ns cs) (hne : cs ≠ []) : parse 16 (.ofList cs) = .ok (ofDigits 16 ns : Nat) := by
  have hruns : ∀ c ∈ cs, inRun 16 c = true := h.forall inRun_of_isDigit
  have hmarks : ∀ c ∈ cs, c ∉ ['-', '+', '_', 'x', 'X', ';'] := h.forall IsDigit.not_mark
  have hspace : cs.dropWhile isSpace = cs := by
    cases h with
    | nil => exact absurd rfl hne
    | cons hdigit _ => simp [isSpace, hdigit.not_blank]
  have hsign : sign cs = (1, cs) := by
    unfold sign
    split
    · exact absurd (hmarks '-' List.mem_cons_self) (by decide)
    · exact absurd (hmarks '+' List.mem_cons_self) (by decide)
    · rfl
  have hmark : dropMark 16 cs = cs := by
    unfold dropMark
    split
    · next zero x rest =>
      have hx := hmarks x (by simp)
      simp only [List.mem_cons, not_or] at hx
      simp [hx]
    · rfl
  have hdigits : digits? 16 cs = some ns := by
    cases h with
    | nil => exact absurd rfl hne
    | cons hdigit hrest => simp [digits?, hdigit.digitIn, digitsAfter?_of_spells hrest]
  have hall : cs.takeWhile (inRun 16) = cs := List.takeWhile_eq_self_iff.2 hruns
  have hnone : cs.dropWhile (inRun 16) = [] := List.dropWhile_eq_nil_iff.2 hruns
  unfold parse
  simp only [String.toList_ofList, hspace, hsign, hmark, hall, hnone, hdigits]
  simp

/-- digit pairs are read as the number that their bytes stand for -/
theorem parse_of_spells_halves {bs : List UInt8} {text : String} (h : Spells (halves bs) text.toList) (hne : bs ≠ []) :
    parse 16 text = .ok (bigEndian bs : Nat) := by
  have hcs : text.toList ≠ [] := by
    have hlength := h.length
    rw [length_halves] at hlength
    have hpos := List.length_pos_iff.2 hne
    exact List.ne_nil_of_length_pos (by omega)
  rw [← ofDigits_halves, ← parse_of_spells h hcs, String.ofList_toList]

end Integer

/-! ## Numbers as text -/

namespace Hex

/-- the lowest `width` digits of a number, most significant first -/
def places : (width : Nat) → (n : Nat) → List Nat
  | 0, _ => []
  | width + 1, n => places width (n / 16) ++ [n % 16]

theorem fixed_eq_map (digit : Nat → Char) (width n : Nat) : fixed digit width n = (places width n).map digit := by
  induction width generalizing n with
  | zero => rfl
  | succ width ih => rw [fixed, places, ih, List.map_append, List.map_singleton]

theorem lt_of_mem_places {width n d : Nat} (h : d ∈ places width n) : d < 16 := by
  induction width generalizing n with
  | zero => cases h
  | succ width ih =>
    rcases List.mem_append.1 h with h | h
    · exact ih h
    · rw [List.mem_singleton.1 h]
      exact Nat.mod_lt n (by decide)

theorem ofDigits_places {width n : Nat} (h : n < 16 ^ width) : Integer.ofDigits 16 (places width n) = n := by
  induction width generalizing n with
  | zero =>
    rw [pow_zero, Nat.lt_one_iff] at h
    subst h
    rfl
  | succ width ih =>
    rw [pow_succ] at h
    have hhigh : Integer.ofDigits 16 (places width (n / 16)) = n / 16 := ih (by omega)
    unfold Integer.ofDigits at hhigh ⊢
    rw [places, List.foldl_append, hhigh]
    exact Nat.div_add_mod' n 16

theorem digitCount_le {width n : Nat} (hwidth : 0 < width) (h : n < 16 ^ width) : digitCount n ≤ width := by
  unfold digitCount
  rcases Nat.eq_zero_or_pos n with rfl | hn
  · rw [Nat.log2_zero]
    omega
  · have hpow : n < 2 ^ (4 * width) := by rwa [pow_mul]
    have hlog := (Nat.log2_lt hn.ne').2 hpow
    omega

/-- a number that fits the width is written with the digits of its places -/
theorem toList_upper {width n : Nat} (hwidth : 0 < width) (h : n < 16 ^ width) :
    (upper width n).toList = (places width n).map upperDigit := by
  have hnonneg : ¬(n : Int) < 0 := by omega
  have hmax : max width (digitCount n) = width := by
    have := digitCount_le hwidth h
    omega
  unfold upper
  rw [if_neg hnonneg, String.toList_ofList, padded, Int.natAbs_natCast, hmax, fixed_eq_map]

theorem length_upper {width n : Nat} (hwidth : 0 < width) (h : n < 16 ^ width) :
    (upper width n).toList.length = width := by
  rw [toList_upper hwidth h, ← fixed_eq_map, length_fixed]

theorem spells_upper {width n : Nat} (hwidth : 0 < width) (h : n < 16 ^ width) :
    Spells (places width n) (upper width n).toList := by
  rw [toList_upper hwidth h]
  unfold Spells
  rw [List.forall₂_map_right_iff, List.forall₂_same]
  exact fun d hd => ⟨lt_of_mem_places hd, .inl rfl⟩

/-- a number is read back from its text -/
theorem parse_upper {width n : Nat} (hwidth : 0 < width) (h : n < 16 ^ width) :
    Integer.parse 16 (upper width n) = .ok (n : Int) := by
  have hspells := spells_upper hwidth h
  have hne : (upper width n).toList ≠ [] := by
    apply List.ne_nil_of_length_pos
    rwa [length_upper hwidth h]
  have hparse := Integer.parse_of_spells hspells hne
  rwa [String.ofList_toList, ofDigits_places h] at hparse

theorem spells_upper_byte (b : UInt8) : Spells (halves [b]) (upper 2 b.toNat).toList := by
  have hb : b.toNat < 256 := b.toNat_lt
  have hplaces : places 2 b.toNat = halves [b] := by
    have hhigh : b.toNat / 16 % 16 = b.toNat / 16 := Nat.mod_eq_of_lt (by omega)
    rw [places, places, places, hhigh]
    rfl
  have hspells := spells_upper (n := b.toNat) Nat.two_pos (by omega)
  rwa [hplaces] at hspells

end Hex

/-! ## Bytes -/

namespace IntelHex

open Hex

variable {bs : List UInt8} {cs : List Char}

/-- a byte in front of digit pairs -/
theorem pairs_digits {b : UInt8} {c d : Char} (hhigh : IsDigit (b.toNat / 16) c) (hlow : IsDigit (b.toNat % 16) d)
    {position : Nat} (h : pairs (position + 2) cs = .ok bs) : pairs position (c :: d :: cs) = .ok (b :: bs) := by
  have hbyte : UInt8.ofNat (b.toNat / 16 * 16 + b.toNat % 16) = b := by
    rw [Nat.div_add_mod', UInt8.ofNat_toNat]
  simp [pairs, hhigh.not_gap, hhigh.hexValue, hlow.hexValue, h, hbyte]

theorem pairs_of_spells (h : Spells (halves bs) cs) (position : Nat) : pairs position cs = .ok bs := by
  induction bs generalizing cs position with
  | nil =>
    cases h
    rfl
  | cons b bs ih =>
    rw [halves_cons] at h
    obtain ⟨c, low, hhigh, hlows, rfl⟩ := List.forall₂_cons_left_iff.1 h
    obtain ⟨d, rest, hlow, hrest, rfl⟩ := List.forall₂_cons_left_iff.1 hlows
    exact pairs_digits hhigh hlow (ih hrest (position + 2))

/-- the text of a byte in front of digit pairs that are read alike wherever they start -/
theorem pairs_upper (b : UInt8) (h : ∀ position, pairs position cs = .ok bs) (position : Nat) :
    pairs position ((upper 2 b.toNat).toList ++ cs) = .ok (b :: bs) := by
  obtain ⟨c, low, hhigh, hlows, hdigits⟩ := List.forall₂_cons_left_iff.1 (spells_upper_byte b)
  obtain ⟨d, none, hlow, hnone, rfl⟩ := List.forall₂_cons_left_iff.1 hlows
  cases hnone
  rw [hdigits]
  exact pairs_digits hhigh hlow (h (position + 2))

theorem bytes_of_spells (h : Spells (halves bs) cs) : bytes cs = .ok bs := by
  have hascii : cs.findIdx? (128 ≤ ·.toNat) = none := by
    rw [List.findIdx?_eq_none_iff]
    exact h.forall fun hdigit => decide_eq_false (not_le.2 hdigit.ascii)
  rw [bytes, hascii]
  exact pairs_of_spells h 0

end IntelHex

end Chip8
