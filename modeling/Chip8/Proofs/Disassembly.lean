/-
Disassembly. A listing covers the range asked for, as far as memory goes, without gap or overlap: two bytes a line, and
one byte in the last line if the number of bytes is odd. What a line of two bytes says is the instruction that a
processor at its address fetches, although a listing takes its bytes from memory in a way of its own.

- `Listing.getElem?_ofBytes`, `Listing.pairs_join_hex`: the lines of a run of bytes, and their hex columns read back.
- `Listing.ofMemory_eq`: a listing from address 0 or above is that of the bytes between two addresses.
- `disassembly_tiles`: what every listing from address 0 or above is.
-/
import Chip8.Listing
import Chip8.Proofs.Hexadecimal
import Chip8.Proofs.Outcome
import Chip8.Proofs.Shape

namespace Chip8

open Text

/-- nothing lies between an address and one that is not above it -/
theorem Memory.read_of_le (m : Memory) {start stop : Int} (h : stop ≤ start) :
    m.read start.toNat (stop - start).toNat = [] := by
  have hle := m.length_read_le start.toNat (stop - start).toNat
  exact List.eq_nil_of_length_eq_zero (by omega)

namespace Listing

/-! ## The lines of a run of bytes -/

def wordLine (address : Int) (high low : UInt8) : Line :=
  ⟨address, [high, low], (Instruction.decode (Word.ofBytes high low)).assembly⟩

def byteLine (address : Int) (b : UInt8) : Line := ⟨address, [b], "DB $" ++ Hex.upper 2 b.toNat⟩

/-- line `k` covers the bytes from place `2 * k` on, both if there are two -/
theorem getElem?_ofBytes (address : Int) (bs : List UInt8) (k : Nat) :
    (ofBytes address bs)[k]? =
      match bs[2 * k]?, bs[2 * k + 1]? with
      | some high, some low => some (wordLine (address + 2 * k) high low)
      | some b, none => some (byteLine (address + 2 * k) b)
      | none, _ => none := by
  induction address, bs using ofBytes.induct generalizing k with
  | case1 => simp [ofBytes]
  | case2 address b =>
    cases k with
    | zero => simp [ofBytes, byteLine]
    | succ k => simp [ofBytes]
  | case3 address high low rest ih =>
    cases k with
    | zero => simp [ofBytes, wordLine]
    | succ k =>
      have haddress : address + 2 + 2 * (k : Int) = address + 2 * ((k + 1 : Nat) : Int) := by
        push_cast
        ring
      have hplace : 2 * (k + 1) = 2 * k + 2 := by omega
      rw [ofBytes, List.getElem?_cons_succ, ih, haddress, hplace]
      rfl

theorem flatMap_bytes_ofBytes (address : Int) (bs : List UInt8) : (ofBytes address bs).flatMap (·.bytes) = bs := by
  induction address, bs using ofBytes.induct with
  | case1 => rfl
  | case2 address b => rfl
  | case3 address high low rest ih =>
    rw [ofBytes, List.flatMap_cons, ih]
    rfl

/-- bytes with spaces between them are read back, whatever digit pairs come behind them -/
theorem pairs_spaced (bs : List UInt8) {rest : List Char} {after : List UInt8}
    (h : ∀ position, IntelHex.pairs position rest = .ok after) (position : Nat) :
    IntelHex.pairs position ((" ".intercalate (bs.map fun b => Hex.upper 2 b.toNat)).toList ++ rest) =
      .ok (bs ++ after) := by
  induction bs generalizing position with
  | nil => simpa using h position
  | cons b bs ih =>
    cases bs with
    | nil => simpa using IntelHex.pairs_upper b h position
    | cons c bs =>
      have hgap (k : Nat) : IntelHex.pairs k
          (' ' :: ((" ".intercalate ((c :: bs).map fun b => Hex.upper 2 b.toNat)).toList ++ rest)) =
            .ok (c :: bs ++ after) := ih (k + 1)
      have hbyte := IntelHex.pairs_upper b hgap position
      simpa [String.toList_intercalate, List.intercalate_cons_cons] using hbyte

/-- the hex columns of lines, one after the other, are read back as the bytes of the lines -/
theorem pairs_join_hex (lines : List Line) (position : Nat) :
    IntelHex.pairs position (String.join (lines.map Line.hex)).toList = .ok (lines.flatMap (·.bytes)) := by
  induction lines generalizing position with
  | nil => rfl
  | cons l lines ih =>
    have hline := pairs_spaced l.bytes ih position
    rw [String.toList_join] at hline ⊢
    exact hline

/-! ## A range of memory as lines -/

section Range

variable {m : Memory} {start stop : Int} (hstart : 0 ≤ start)
include hstart

theorem bytesBetween_eq_read (hstop : stop ≤ m.size) :
    bytesBetween m start stop = m.read start.toNat (stop - start).toNat := by
  rcases Int.le_total stop start with hle | hle
  · rw [m.read_of_le hle, bytesBetween, Int.toNat_of_nonpos (by omega)]
    rfl
  · rw [bytesBetween, Memory.read_eq_map (by omega)]
    refine List.map_congr_left fun k hk => ?_
    rw [List.mem_range] at hk
    have hplace : m.place? (start + k) = some (start.toNat + k) := by
      have hneg : ¬start + (k : Int) < 0 := by omega
      have htoNat : (start + (k : Int)).toNat = start.toNat + k := by omega
      unfold Memory.place?
      simp only [if_neg hneg, htoNat]
      exact if_pos (by omega)
    rw [hplace, Option.getD_some]

/-- a listing from address 0 or above is that of the bytes from there up to its end -/
theorem ofMemory_eq {length : Int} (hstop : min (start + length) m.size = stop) :
    ofMemory m start length = .ok (ofBytes start (m.read start.toNat (stop - start).toNat)) := by
  have hle : stop ≤ m.size := by omega
  unfold ofMemory
  simp only [hstop]
  split_ifs with hempty hfar hplace
  · rw [m.read_of_le hempty, ofBytes]
  · have : (0 : Int) ≤ Memory.indexLimit := by omega
    omega
  · exfalso
    have hneg : ¬start < 0 := by omega
    unfold Memory.place? at hplace
    simp only [if_neg hneg] at hplace
    rw [if_pos (by omega)] at hplace
    cases hplace
  · rw [bytesBetween_eq_read hstart hle]

/-- line `k` of a listing -/
theorem getElem?_listed (hstop : stop ≤ m.size) (k : Nat) :
    (ofBytes start (m.read start.toNat (stop - start).toNat))[k]? =
      if start + 2 * k + 1 < stop then
        some (wordLine (start + 2 * k) (m.byte (start.toNat + 2 * k)) (m.byte (start.toNat + 2 * k + 1)))
      else if start + 2 * k < stop then some (byteLine (start + 2 * k) (m.byte (start.toNat + 2 * k)))
      else none := by
  rcases Int.le_total stop start with hle | hle
  · rw [m.read_of_le hle, if_neg (by omega), if_neg (by omega)]
    rfl
  · have hrange : start.toNat + (stop - start).toNat ≤ m.size := by omega
    rw [getElem?_ofBytes, Memory.getElem?_read hrange, Memory.getElem?_read hrange]
    split_ifs
    all_goals first | rfl | omega

/-- a line of a listing has two bytes, or it has the last byte of the range and is the last line -/
theorem mem_listed (hstop : stop ≤ m.size) {l : Line}
    (hl : l ∈ ofBytes start (m.read start.toNat (stop - start).toNat)) :
    ∃ k : Nat,
      (start + 2 * k + 1 < stop ∧
        l = wordLine (start + 2 * k) (m.byte (start.toNat + 2 * k)) (m.byte (start.toNat + 2 * k + 1))) ∨
      (start + 2 * k + 1 = stop ∧ l = byteLine (start + 2 * k) (m.byte (start.toNat + 2 * k)) ∧
        (ofBytes start (m.read start.toNat (stop - start).toNat)).getLast? = some l) := by
  obtain ⟨k, hk⟩ := List.mem_iff_getElem?.1 hl
  have hlisted := getElem?_listed hstart hstop k
  have hnext := getElem?_listed hstart hstop (k + 1)
  rw [hk] at hlisted
  split_ifs at hlisted with htwo hone
  · exact ⟨k, .inl ⟨htwo, Option.some.inj hlisted⟩⟩
  · rw [if_neg (by omega), if_neg (by omega), List.getElem?_eq_none_iff] at hnext
    have hlt := (List.getElem?_eq_some_iff.1 hk).1
    refine ⟨k, .inr ⟨by omega, Option.some.inj hlisted, ?_⟩⟩
    rw [List.getLast?_eq_getElem?, ← hk]
    congr 1
    omega

end Range

/-- what the lines of a listing from `start` up to `stop` are -/
structure Tiles (m : Memory) (start stop : Int) (lines : List Line) : Prop where
  /-- they start at `start` and go on by two as long as they lie before `stop` -/
  addresses : ∀ k : Nat, lines[k]?.map (·.address) = if start + 2 * k < stop then some (start + 2 * k) else none
  /-- they cover the bytes from `start` up to `stop` … -/
  covered : lines.flatMap (·.bytes) = m.read start.toNat (stop - start).toNat
  /-- … and these are what their hex columns say -/
  hex : IntelHex.pairs 0 (String.join (lines.map Line.hex)).toList = .ok (m.read start.toNat (stop - start).toNat)
  /-- a line that has not two bytes is the last one, and it is a byte of data -/
  single : ∀ l ∈ lines, l.bytes.length ≠ 2 →
    lines.getLast? = some l ∧ ∃ b, l.bytes = [b] ∧ l.text = "DB $" ++ Hex.upper 2 b.toNat
  /-- there is such a line if the number of bytes is odd -/
  odd : (∃ l ∈ lines, l.bytes.length ≠ 2) ↔ 0 < stop - start ∧ (stop - start) % 2 = 1
  /-- a line of two bytes says what a processor at its address fetches -/
  fetched : ∀ l ∈ lines, l.bytes.length = 2 → ∀ s : State, s.memory = m → (s.cpu.pc : Int) = l.address →
    ∃ w t, Effect.fetch s = .ok w t ∧ l.text = (Instruction.decode w).assembly

end Listing

open Listing

/-- **A listing tiles the range asked for.** From any address that is not negative and for any length, even a negative
one, there is a listing of the range up to the end of memory, and it tiles that range. -/
theorem disassembly_tiles (m : Memory) (start length : Int) (hstart : 0 ≤ start) :
    ∃ lines, ofMemory m start length = .ok lines ∧ Tiles m start (min (start + length) m.size) lines := by
  refine ⟨_, ofMemory_eq hstart rfl, ?_⟩
  have hstop : min (start + length) m.size ≤ m.size := by omega
  generalize min (start + length) (m.size : Int) = stop at hstop ⊢
  have hcovered := flatMap_bytes_ofBytes start (m.read start.toNat (stop - start).toNat)
  constructor
  case addresses =>
    intro k
    rw [getElem?_listed hstart hstop]
    split_ifs
    all_goals first | rfl | omega
  case covered => exact hcovered
  case hex => rw [pairs_join_hex, hcovered]
  case single =>
    intro l hl hlength
    obtain ⟨k, ⟨-, rfl⟩ | ⟨-, rfl, hlast⟩⟩ := mem_listed hstart hstop hl
    · exact absurd rfl hlength
    · exact ⟨hlast, _, rfl, rfl⟩
  case odd =>
    constructor
    · rintro ⟨l, hl, hlength⟩
      obtain ⟨k, ⟨-, rfl⟩ | ⟨hk, -⟩⟩ := mem_listed hstart hstop hl
      · exact absurd rfl hlength
      · omega
    · rintro ⟨hpos, hodd⟩
      have hlast := getElem?_listed hstart hstop ((stop - start - 1) / 2).toNat
      rw [if_neg (by omega), if_pos (by omega)] at hlast
      exact ⟨_, List.mem_of_getElem? hlast, by simp [byteLine]⟩
  case fetched =>
    rintro l hl hlength s rfl hpc
    obtain ⟨k, ⟨hk, rfl⟩ | ⟨-, rfl, -⟩⟩ := mem_listed hstart hstop hl
    · have haddress : (s.cpu.pc : Int) = start + 2 * k := hpc
      have hplace : s.cpu.pc = start.toNat + 2 * k := by omega
      refine ⟨s.word, s.fetched, ?_, ?_⟩
      · rw [Effect.fetch_apply, if_pos (by omega)]
      · rw [State.word, hplace]
        rfl
    · simp [byteLine] at hlength

/-- a range that starts at an odd address, is cut off by the end of memory and leaves a byte over -/
theorem oddRange_tiles :
    ∃ lines, ofMemory ⟨#[0xFF, 0xA2, 0x1F, 0xD0]⟩ 1 100 = .ok lines ∧
      Tiles ⟨#[0xFF, 0xA2, 0x1F, 0xD0]⟩ 1 4 lines ∧ lines.map (·.text) = ["LD I, $21F", "DB $D0"] := by
  obtain ⟨lines, hlines, htiles⟩ := disassembly_tiles ⟨#[0xFF, 0xA2, 0x1F, 0xD0]⟩ 1 100 (by decide)
  have htexts : (ofMemory ⟨#[0xFF, 0xA2, 0x1F, 0xD0]⟩ 1 100).map (·.map (·.text)) = .ok ["LD I, $21F", "DB $D0"] := by
    decide +kernel
  rw [hlines] at htexts
  exact ⟨lines, hlines, htiles, Except.ok.inj htexts⟩

end Chip8
