/-
Switching on. Of what a machine was before, only the random generator is left after it is switched on, and the
configuration says all the rest: `Machine.fresh`. A new machine is a fresh one (`Machine.create_eq`), a reset leads back
to a fresh one (`Machine.reset_apply`), and loading an image puts the image into the memory of a fresh one
(`Machine.load_apply`).

- `Memory.byte_write_of_mem`, `Memory.byte_write_of_not_mem`: what is read at an address after bytes were written.
- `State.byte_fresh`: a fresh memory is zero but for the font.
-/
import Chip8.Proofs.Bounds

namespace Chip8

open Act

/-! ## Bytes of memory -/

namespace Memory

variable (m : Memory) {address k : Nat} {bs : List UInt8}

theorem byte_put (bytes : Array UInt8) (address k : Nat) (b : UInt8) :
    (Memory.mk (bytes.setIfInBounds address b)).byte k =
      if address = k ∧ k < bytes.size then b else (Memory.mk bytes).byte k := by
  unfold byte
  simp only [Array.getD_eq_getD_getElem?, Array.getElem?_setIfInBounds]
  by_cases heq : address = k
  · by_cases hk : k < bytes.size
    · simp [heq, hk]
    · simp [heq, hk]
  · simp [heq]

/-- a write leaves the bytes before it and after it -/
theorem byte_write_of_not_mem (h : k < address ∨ address + bs.length ≤ k) : (m.write address bs).byte k = m.byte k := by
  induction bs generalizing m address with
  | nil => rfl
  | cons b bs ih =>
    rw [List.length_cons] at h
    have hrest : (write ⟨m.bytes.setIfInBounds address b⟩ (address + 1) bs).byte k = _ := ih _ (by omega)
    rw [byte_put, if_neg (by omega)] at hrest
    exact hrest

/-- the bytes written are there, as far as memory goes -/
theorem byte_write_of_mem (j : Nat) (hj : j < bs.length) (hk : address + j < m.size) :
    (m.write address bs).byte (address + j) = bs[j] := by
  induction bs generalizing m address j with
  | nil => exact absurd hj (Nat.not_lt_zero j)
  | cons b bs ih =>
    cases j with
    | zero =>
      have hrest : (write ⟨m.bytes.setIfInBounds address b⟩ (address + 1) bs).byte address = _ :=
        byte_write_of_not_mem _ (.inl (Nat.lt_succ_self address))
      rw [byte_put, if_pos ⟨rfl, hk⟩] at hrest
      exact hrest
    | succ j =>
      have hsize : address + 1 + j < size ⟨m.bytes.setIfInBounds address b⟩ := by
        unfold size at hk ⊢
        rw [Array.size_setIfInBounds]
        omega
      have hrest := ih ⟨m.bytes.setIfInBounds address b⟩ j (Nat.lt_of_succ_lt_succ hj) hsize
      rw [Nat.succ_add_eq_add_succ] at hrest
      exact hrest

theorem byte_zeros (size k : Nat) : (zeros size).byte k = 0 := by
  unfold byte zeros
  rw [Array.getD_eq_getD_getElem?, Array.getElem?_replicate]
  split_ifs <;> rfl

/-- a range passes the check if it lies inside memory -/
theorem check_eq_ok_iff {m : Memory} {address length : Int} :
    m.check address length = .ok () ↔ 0 ≤ address ∧ address + length ≤ m.size := by
  unfold check
  split_ifs with hneg hover
  · simp [hneg]
  · simp [hover]
  · simp only [true_iff]
    omega

end Memory

namespace Image

/-- cells pass the check if memory has all their addresses -/
theorem checkCells_eq_ok_iff {m : Memory} {cells : Sparse} :
    checkCells m cells = .ok () ↔ ∀ x ∈ cells, 0 ≤ x.1 ∧ x.1 < m.size := by
  induction cells with
  | nil => exact iff_of_true rfl (List.forall_mem_nil _)
  | cons x cells ih =>
    rw [List.forall_mem_cons, ← ih]
    constructor
    · intro h
      obtain ⟨⟨⟩, hcheck, hrest⟩ := ok_of_bind h
      obtain ⟨hlow, hhigh⟩ := Memory.check_eq_ok_iff.1 hcheck
      exact ⟨⟨hlow, by omega⟩, hrest⟩
    · rintro ⟨⟨hlow, hhigh⟩, hrest⟩
      have hcheck : m.check x.1 = .ok () := Memory.check_eq_ok_iff.2 ⟨hlow, by omega⟩
      rw [checkCells, hcheck]
      exact hrest

/-- bytes that fit into memory are loaded -/
theorem load_raw {m : Memory} {address : Int} {bs : List UInt8} (h : 0 ≤ address)
    (hfits : address + bs.length ≤ m.size) :
    load m address (.raw bs) = .ok (m.write address.toNat bs, bs.length) := by
  change (loadBytes m address bs).mapError LoadError.fault = _
  rw [loadBytes, Memory.check_eq_ok_iff.2 ⟨h, hfits⟩]
  rfl

end Image

theorem Font.load_succeeds {m : Memory} {address : Int} (h : 0 ≤ address) (hfits : address + bytes.length ≤ m.size) :
    load m address = .ok (m.write address.toNat bytes) := by
  rw [load, Memory.check_eq_ok_iff.2 ⟨h, hfits⟩]
  rfl

/-! ## Fresh machines -/

variable {c : Config}

/-- a machine just switched on: the font in memory, a dark screen, the processor at the program -/
def State.fresh (c : Config) (rng : Twister) : State where
  cpu := { pc := c.programStart.toNat }
  memory := (Memory.zeros c.memorySize.toNat).write c.fontStart.toNat Font.bytes
  screen := .dark c.width.toNat c.height.toNat
  rng := rng

theorem State.size_fresh (c : Config) (rng : Twister) : (fresh c rng).memory.size = c.memorySize.toNat := by
  unfold fresh
  rw [Memory.size_write, Memory.size_zeros]

/-- a fresh memory is as large as the configuration says -/
theorem State.size_fresh_of_valid (hc : c.Valid) (rng : Twister) :
    ((fresh c rng).memory.size : Int) = c.memorySize := by
  rw [size_fresh, Int.toNat_of_nonneg hc.memory_pos.le]

/-- a fresh memory is zero but for the font -/
theorem State.byte_fresh (hc : c.Valid) (rng : Twister) (k : Nat) :
    (fresh c rng).memory.byte k =
      if c.fontStart.toNat ≤ k then Font.bytes[k - c.fontStart.toNat]?.getD 0 else 0 := by
  have hfont := hc.font_nonneg
  have hfits := hc.font_le
  unfold fresh
  split_ifs with hlow
  · obtain ⟨j, rfl⟩ := Nat.exists_eq_add_of_le hlow
    rw [Nat.add_sub_cancel_left]
    by_cases hj : j < Font.bytes.length
    · rw [Memory.byte_write_of_mem _ j hj, List.getElem?_eq_getElem hj, Option.getD_some]
      rw [Memory.size_zeros]
      omega
    · rw [Memory.byte_write_of_not_mem _ (by omega), Memory.byte_zeros, List.getElem?_eq_none (not_lt.1 hj),
        Option.getD_none]
  · rw [Memory.byte_write_of_not_mem _ (by omega), Memory.byte_zeros]

theorem State.Within.fresh (hc : c.Valid) (rng : Twister) : (State.fresh c rng).Within c := by
  have hmemory := hc.memory_pos
  have hprogram := hc.program_nonneg
  have hprogram' := hc.program_lt
  refine ⟨(Cpu.Within.zero hc).withPc (by omega), ?_, Screen.SameShape.refl _⟩
  rw [State.size_fresh]
  omega

namespace Machine

/-- switching on leaves the random generator where it was, and nothing else -/
theorem powerOn_eq (hc : c.Valid) {s : State} (hmemory : (s.memory.size : Int) = c.memorySize)
    (hscreen : Screen.SameShape (.dark c.width.toNat c.height.toNat) s.screen) :
    powerOn c s = .ok (State.fresh c s.rng) := by
  have hsize : s.memory.size = c.memorySize.toNat := by omega
  have hfont := Font.load_succeeds (m := Memory.zeros s.memory.size) hc.font_nonneg (by
    rw [Memory.size_zeros, hmemory]
    exact hc.font_le)
  unfold powerOn
  rw [hfont, hsize, Screen.clear_of_sameShape hscreen]
  rfl

variable {κ : Type} [Credit κ]

/-- a machine of a configuration that has just been switched on -/
def fresh (c : Config) (rng : Twister) : Machine κ := ⟨c, .fresh c rng, Clock.zero⟩

/-- building a machine fails if its memory or its screen is too large to be numbered, and leads to a fresh machine
otherwise -/
theorem create_eq (hc : c.Valid) :
    (create c : Except Error (Machine κ)) =
      if Memory.indexLimit ≤ c.memorySize then .error (.memory .tooLarge)
      else if Screen.indexLimit ≤ c.width * c.height then .error (.screen .tooLarge)
      else .ok (fresh c (.ofSeed (c.seed.getD 0))) := by
  have hpos := hc.memory_pos
  have hwidth := hc.width_pos
  have hheight := hc.height_pos
  have hdimensions : ¬ (c.width ≤ 0 ∨ c.height ≤ 0) := by omega
  unfold create Memory.create Screen.create
  rw [if_neg (by omega), if_neg hdimensions]
  by_cases hmemory : (Memory.indexLimit : Int) ≤ c.memorySize
  · rw [if_pos hmemory, if_pos hmemory]
    rfl
  rw [if_neg hmemory, if_neg hmemory]
  by_cases hpixels : (Screen.indexLimit : Int) ≤ c.width * c.height
  · rw [if_pos hpixels, if_pos hpixels]
    rfl
  rw [if_neg hpixels, if_neg hpixels]
  have hsize : (((Memory.zeros c.memorySize.toNat).size : Nat) : Int) = c.memorySize := by
    rw [Memory.size_zeros]
    omega
  have hon := powerOn_eq hc (s := { memory := .zeros c.memorySize.toNat, screen := .dark c.width.toNat c.height.toNat,
                                    rng := .ofSeed (c.seed.getD 0) }) hsize (Screen.SameShape.refl _)
  change ((powerOn c _).mapError Error.fault >>= fun state => _) = _
  rw [hon]
  rfl

variable {m : Machine κ}

/-- a reset leads to a fresh machine, whatever there was before -/
theorem reset_apply (hc : c.Valid) (hm : m.Within c) : reset m = .ok () (fresh c m.state.rng) := by
  obtain rfl := hm.config
  unfold reset
  rw [powerOn_eq hc hm.state.memory hm.state.screen]
  rfl

/-- loading puts an image into the memory of a fresh machine and reports it, or leaves both as they are -/
theorem loading_apply (hc : c.Valid) (hm : m.Within c) (image : Image) (ns : List Notice) :
    loading image (m, ns) = match image.load (State.fresh c m.state.rng).memory c.programStart with
      | .ok (memory, count) =>
        .ok count ({ (fresh c m.state.rng : Machine κ) with state := { State.fresh c m.state.rng with memory } },
          ns ++ [.romLoaded count])
      | .error e => .error (.load e) (fresh c m.state.rng, ns) := by
  unfold loading
  rw [bind_apply, silently_apply, reset_apply hc hm]
  simp only [bind_apply, silently_apply, place, get_apply, fresh]
  cases image.load (State.fresh c m.state.rng).memory c.programStart <;> rfl

theorem load_apply (hc : c.Valid) (hm : m.Within c) (image : Image) :
    load image m = match image.load (State.fresh c m.state.rng).memory c.programStart with
      | .ok (memory, count) =>
        .ok (count, [.romLoaded count])
          { (fresh c m.state.rng : Machine κ) with state := { State.fresh c m.state.rng with memory } }
      | .error e => .error (.load e) (fresh c m.state.rng) := by
  unfold load reported
  rw [loading_apply hc hm]
  cases image.load (State.fresh c m.state.rng).memory c.programStart <;> rfl

/-- bytes that fit into memory from where programs start are loaded there -/
theorem load_raw (hc : c.Valid) (hm : m.Within c) {bs : List UInt8} (hfits : c.programStart + bs.length ≤ c.memorySize) :
    load (.raw bs) m = .ok (bs.length, [.romLoaded bs.length])
      { (fresh c m.state.rng : Machine κ) with
        state := { State.fresh c m.state.rng with
          memory := (State.fresh c m.state.rng).memory.write c.programStart.toNat bs } } := by
  have hsize : c.programStart + bs.length ≤ (State.fresh c m.state.rng).memory.size := by
    rw [State.size_fresh_of_valid hc]
    exact hfits
  have hload := Image.load_raw hc.program_nonneg hsize
  rw [load_apply hc hm, hload]

end Machine

end Chip8
