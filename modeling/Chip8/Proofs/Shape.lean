/-
The shape of memory and screen: how many bytes, how wide, how high. Whatever is written, loaded, drawn, set or cleared
changes contents only (`SameShape`), so a machine keeps the memory and the screen it was built with.
-/
import Mathlib.Tactic
import Chip8.Rom.Image
import Chip8.Screen
import Chip8.Proofs.Act

namespace Chip8

open Act

/-- a part of an array, entry by entry -/
theorem extract_eq_map {α : Type} {a : Array α} {start n : Nat} (h : start + n ≤ a.size) (d : α) :
    (a.extract start (start + n)).toList = (List.range n).map fun k => a.getD (start + k) d := by
  refine List.ext_getElem ?_ fun k hk _ => ?_
  · rw [Array.length_toList, Array.size_extract, List.length_map, List.length_range]
    omega
  · rw [Array.length_toList, Array.size_extract] at hk
    rw [Array.getElem_toList, Array.getElem_extract, List.getElem_map, List.getElem_range, Array.getD_eq_getD_getElem?,
      Array.getElem?_eq_getElem (by omega), Option.getD_some]

/-! ## Memory -/

namespace Memory

theorem size_blit (bytes : Array UInt8) (address : Nat) (bs : List UInt8) :
    (blit bytes address bs).size = bytes.size := by
  induction bs generalizing bytes address with
  | nil => rfl
  | cons b bs ih =>
    rw [blit, ih]
    exact Array.size_setIfInBounds

@[simp] theorem size_write (m : Memory) (address : Nat) (bs : List UInt8) : (m.write address bs).size = m.size :=
  size_blit m.bytes address bs

@[simp] theorem size_zeros (size : Nat) : (zeros size).size = size := Array.size_replicate

theorem length_read_le (m : Memory) (address length : Nat) : (m.read address length).length ≤ length := by
  unfold read
  rw [Array.length_toList, Array.size_extract]
  omega

/-- a range inside memory, byte by byte -/
theorem read_eq_map {m : Memory} {address length : Nat} (h : address + length ≤ m.size) :
    m.read address length = (List.range length).map fun k => m.byte (address + k) :=
  extract_eq_map h 0

theorem getElem?_read {m : Memory} {address length : Nat} (h : address + length ≤ m.size) (k : Nat) :
    (m.read address length)[k]? = if k < length then some (m.byte (address + k)) else none := by
  rw [read_eq_map h, List.getElem?_map]
  split_ifs with hk
  · rw [List.getElem?_range hk]
    rfl
  · rw [List.getElem?_eq_none (by rw [List.length_range]; omega)]
    rfl

theorem size_create {size : Int} {m : Memory} (h : create size = .ok m) : (m.size : Int) = size := by
  unfold create at h
  split_ifs at h with hpos
  cases h
  rw [size_zeros]
  omega

end Memory

theorem Font.size_load {m t : Memory} {address : Int} (h : Font.load m address = .ok t) : t.size = m.size := by
  obtain ⟨-, -, ht⟩ := ok_of_bind h
  rw [← Except.ok.inj ht, m.size_write]

namespace Image

theorem size_loadBytes {m t : Memory} {address : Int} {bs : List UInt8} {n : Nat}
    (h : loadBytes m address bs = .ok (t, n)) : t.size = m.size := by
  obtain ⟨-, -, ht⟩ := ok_of_bind h
  cases ht
  exact m.size_write _ _

theorem size_foldl_write (cells : Sparse) (m : Memory) :
    (cells.foldl (fun m c => m.write c.1.toNat [UInt8.ofNat (c.2 % 256).toNat]) m).size = m.size := by
  induction cells generalizing m with
  | nil => rfl
  | cons c cells ih => rw [List.foldl_cons, ih, m.size_write]

theorem size_loadCells {m t : Memory} {cells : Sparse} {n : Nat} (h : loadCells m cells = .ok (t, n)) :
    t.size = m.size := by
  obtain ⟨-, -, ht⟩ := ok_of_bind h
  cases ht
  exact size_foldl_write cells m

/-- loading an image never changes how many bytes memory has -/
theorem size_load {m t : Memory} {address : Int} {image : Image} {n : Nat}
    (h : image.load m address = .ok (t, n)) : t.size = m.size := by
  cases image with
  | raw bs => exact size_loadBytes (ok_of_mapError h)
  | numbers values =>
    simp only [load] at h
    split at h
    · exact size_loadBytes (ok_of_mapError h)
    · cases h
  | sparse cells => exact size_loadCells (ok_of_mapError h)

end Image

/-! ## Screen -/

namespace Screen

/-- the screens are as wide and as high as each other, with as many pixels -/
structure SameShape (s t : Screen) : Prop where
  width : t.width = s.width
  height : t.height = s.height
  size : t.pixels.size = s.pixels.size

theorem create_eq_dark {width height : Int} {s : Screen} (h : create width height = .ok s) :
    s = dark width.toNat height.toNat := by
  unfold create at h
  split_ifs at h
  cases h
  rfl

theorem SameShape.refl (s : Screen) : SameShape s s := ⟨rfl, rfl, rfl⟩

theorem SameShape.trans {s t u : Screen} (h : SameShape s t) (k : SameShape t u) : SameShape s u :=
  ⟨k.width.trans h.width, k.height.trans h.height, k.size.trans h.size⟩

theorem toggle_sameShape (s : Screen) (p : Nat × Nat) : SameShape s (s.toggle p) :=
  ⟨rfl, rfl, Array.size_modify⟩

theorem toggleAll_sameShape (s : Screen) (collision : Bool) (ps : List (Nat × Nat)) :
    SameShape s (toggleAll (s, collision) ps).1 := by
  unfold toggleAll
  induction ps generalizing s collision with
  | nil => exact SameShape.refl s
  | cons p ps ih => exact (s.toggle_sameShape p).trans (ih _ _)

theorem draw_sameShape (s : Screen) (x y : Int) (rows : List Int) (clip : Bool) :
    SameShape s (s.draw x y rows clip).1 :=
  s.toggleAll_sameShape false _

theorem setPixel_sameShape {s t : Screen} {x y : Int} {on : Bool} (h : s.setPixel x y on = .ok t) :
    SameShape s t := by
  unfold setPixel at h
  split_ifs at h
  cases h
  exact ⟨rfl, rfl, Array.size_setIfInBounds⟩

/-- a cleared screen is a dark one of the same shape -/
theorem clear_of_sameShape {s : Screen} {width height : Nat} (h : SameShape (dark width height) s) :
    s.clear = dark width height := by
  rw [clear, h.width, h.height]
  rfl

end Screen

end Chip8
