/-
The instruction set as a table: `Instruction.Pattern w ins` says which digits the word of an instruction has.

- `decode_eq_iff`: a word is read as an instruction if and only if it has the digits of the table.
- `encode_decode`: an instruction is written as the word that it was read from.
-/
import Mathlib.Tactic
import Chip8.Instruction.Basic

namespace Chip8

def Word.low (w : UInt16) : Nat := w.toNat % 256

theorem Word.top_lt (w : UInt16) : Word.top w < 16 := by
  have := w.toNat_lt
  unfold Word.top
  omega

theorem Arith.ofDigit?_eq_some {k : Nat} {op : Arith} : ofDigit? k = some op ↔ k = op.digit := by
  constructor
  · intro h
    unfold ofDigit? at h
    split at h
    all_goals first
      | cases h
        rfl
      | cases h
  · rintro rfl
    cases op <;> rfl

open Word

/-- the digits that the word of an instruction has -/
def Instruction.Pattern (w : UInt16) : Instruction → Prop
  | .sys addr => top w = 0x0 ∧ w ≠ 0x00E0 ∧ w ≠ 0x00EE ∧ addr = nnn w
  | .clear => w = 0x00E0
  | .ret => w = 0x00EE
  | .jump addr => top w = 0x1 ∧ addr = nnn w
  | .call addr => top w = 0x2 ∧ addr = nnn w
  | .skipEq r byte => top w = 0x3 ∧ r = x w ∧ byte = nn w
  | .skipNe r byte => top w = 0x4 ∧ r = x w ∧ byte = nn w
  | .skipEqReg r q => top w = 0x5 ∧ w.toNat % 16 = 0 ∧ r = x w ∧ q = y w
  | .load r byte => top w = 0x6 ∧ r = x w ∧ byte = nn w
  | .add r byte => top w = 0x7 ∧ r = x w ∧ byte = nn w
  | .arith op r q => top w = 0x8 ∧ w.toNat % 16 = op.digit ∧ r = x w ∧ q = y w
  | .skipNeReg r q => top w = 0x9 ∧ w.toNat % 16 = 0 ∧ r = x w ∧ q = y w
  | .loadIndex addr => top w = 0xA ∧ addr = nnn w
  | .jumpOffset addr => top w = 0xB ∧ addr = nnn w
  | .random r mask => top w = 0xC ∧ r = x w ∧ mask = nn w
  | .draw r q m => top w = 0xD ∧ r = x w ∧ q = y w ∧ m = n w
  | .skipKey r => top w = 0xE ∧ low w = 0x9E ∧ r = x w
  | .skipNoKey r => top w = 0xE ∧ low w = 0xA1 ∧ r = x w
  | .readDelay r => top w = 0xF ∧ low w = 0x07 ∧ r = x w
  | .waitKey r => top w = 0xF ∧ low w = 0x0A ∧ r = x w
  | .setDelay r => top w = 0xF ∧ low w = 0x15 ∧ r = x w
  | .setSound r => top w = 0xF ∧ low w = 0x18 ∧ r = x w
  | .addIndex r => top w = 0xF ∧ low w = 0x1E ∧ r = x w
  | .glyph r => top w = 0xF ∧ low w = 0x29 ∧ r = x w
  | .decimal r => top w = 0xF ∧ low w = 0x33 ∧ r = x w
  | .store r => top w = 0xF ∧ low w = 0x55 ∧ r = x w
  | .restore r => top w = 0xF ∧ low w = 0x65 ∧ r = x w
  | .unknown word => word = w

namespace Instruction

theorem decodeMisc_pattern {w : UInt16} (h : top w = 0xF) : (decodeMisc w).Pattern w := by
  unfold decodeMisc
  split
  all_goals first
    | exact ⟨h, by assumption, rfl⟩
    | exact rfl

theorem decode_pattern (w : UInt16) : (decode w).Pattern w := by
  unfold decode
  split
  case h_1 h =>
    split_ifs with h1 h2
    · exact UInt16.toNat_inj.1 h1
    · exact UInt16.toNat_inj.1 h2
    · refine ⟨h, ?_, ?_, rfl⟩
      · rintro rfl
        exact h1 rfl
      · rintro rfl
        exact h2 rfl
  case h_6 h =>
    split_ifs with h1
    · exact ⟨h, h1, rfl, rfl⟩
    · exact rfl
  case h_9 h =>
    split
    · next op hop => exact ⟨h, Arith.ofDigit?_eq_some.1 hop, rfl, rfl⟩
    · exact rfl
  case h_10 h =>
    split_ifs with h1
    · exact ⟨h, h1, rfl, rfl⟩
    · exact rfl
  case h_15 h =>
    split_ifs with h1 h2
    · exact ⟨h, h1, rfl⟩
    · exact ⟨h, h2, rfl⟩
    · exact rfl
  case h_16 =>
    have htop : top w = 0xF := by
      have := top_lt w
      grind
    exact decodeMisc_pattern htop
  all_goals next h => exact ⟨h, by simp⟩

theorem decode_of_pattern {w : UInt16} {ins : Instruction} (h : ins.Pattern w) (hknown : ∀ v, ins ≠ .unknown v) :
    decode w = ins := by
  cases ins with
  | sys addr =>
    obtain ⟨htop, h1, h2, rfl⟩ := h
    have h1' : w.toNat ≠ 0x00E0 := fun he => h1 (UInt16.toNat_inj.1 he)
    have h2' : w.toNat ≠ 0x00EE := fun he => h2 (UInt16.toNat_inj.1 he)
    simp only [decode, htop, if_neg h1', if_neg h2']
  | clear =>
    cases h
    rfl
  | ret =>
    cases h
    rfl
  | arith op r q =>
    obtain ⟨htop, hop, rfl, rfl⟩ := h
    simp only [decode, htop, Arith.ofDigit?_eq_some.2 hop]
  | unknown v => exact absurd rfl (hknown v)
  | _ =>
    simp only [Pattern, low] at h
    simp [decode, decodeMisc, h]

theorem decode_eq_iff {w : UInt16} {ins : Instruction} (hknown : ∀ v, ins ≠ .unknown v) :
    decode w = ins ↔ ins.Pattern w := by
  constructor
  · rintro rfl
    exact decode_pattern w
  · intro h
    exact decode_of_pattern h hknown

/-! ## Instructions as words -/

theorem wordA_nnn {top : Nat} {w : UInt16} (htop : Word.top w = top) : wordA top (nnn w) = w := by
  have hw := w.toNat_lt
  unfold Word.top at htop
  apply UInt16.toNat_inj.1
  unfold wordA nnn
  simp only [UInt16.toNat_ofNat']
  omega

theorem wordXB_low {top low : Nat} {w : UInt16} (htop : Word.top w = top) (hlow : Word.low w = low) :
    wordXB top (x w) low = w := by
  have hw := w.toNat_lt
  unfold Word.top at htop
  unfold Word.low at hlow
  apply UInt16.toNat_inj.1
  unfold wordXB x
  simp only [UInt16.toNat_ofNat']
  omega

theorem wordXY_digit {top digit : Nat} {w : UInt16} (htop : Word.top w = top) (hdigit : w.toNat % 16 = digit) :
    wordXY top (x w) (y w) digit = w := by
  have hw := w.toNat_lt
  unfold Word.top at htop
  apply UInt16.toNat_inj.1
  unfold wordXY x y
  simp only [UInt16.toNat_ofNat']
  omega

theorem toNat_nn (w : UInt16) : (nn w).toNat = low w := by
  have hlow : w.toNat % 256 < 256 := Nat.mod_lt _ (by decide)
  exact UInt8.toNat_ofNat_of_lt' hlow

/-- the digits of the table are the ones that an instruction is written with -/
theorem encode_of_pattern {w : UInt16} {ins : Instruction} (h : ins.Pattern w) : ins.encode = w := by
  cases ins with
  | clear => exact h.symm
  | ret => exact h.symm
  | unknown word => exact h
  | sys addr =>
    obtain ⟨htop, -, -, rfl⟩ := h
    exact wordA_nnn htop
  | jump _ | call _ | loadIndex _ | jumpOffset _ =>
    obtain ⟨htop, rfl⟩ := h
    exact wordA_nnn htop
  | skipEq _ _ | skipNe _ _ | load _ _ | add _ _ | random _ _ =>
    obtain ⟨htop, rfl, rfl⟩ := h
    exact wordXB_low htop (toNat_nn w).symm
  | skipEqReg _ _ | skipNeReg _ _ | arith _ _ _ =>
    obtain ⟨htop, hdigit, rfl, rfl⟩ := h
    exact wordXY_digit htop hdigit
  | draw _ _ _ =>
    obtain ⟨htop, rfl, rfl, rfl⟩ := h
    exact wordXY_digit htop rfl
  | _ =>
    obtain ⟨htop, hlow, rfl⟩ := h
    exact wordXB_low htop hlow

theorem encode_decode (w : UInt16) : (decode w).encode = w := encode_of_pattern (decode_pattern w)

end Instruction

end Chip8
