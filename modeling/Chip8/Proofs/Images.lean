/-
One image in two forms. Bytes at consecutive addresses can be loaded as a run, which is checked once and written at
once, or as single cells, which are all checked one by one and then written one by one. It makes no difference: the
same memory comes out of both, or the same fault, which names the first address that lies outside memory.

- `Memory.check_succ`: the check of a range is the check of its first address and then of the rest.
- `Image.loadCells_run`: the two ways to load, in any memory and at any address.
- `single_cells_load_alike`: machines.
-/
import Chip8.Proofs.Reload

namespace Chip8

open Act

namespace Memory

variable (m : Memory)

/-- a range of more than one address is inside memory if its first address is and the rest are, and the first address
that is not is the one that checking them one after the other comes upon -/
theorem check_succ (address : Int) {length : Int} (h : 1 ≤ length) :
    m.check address (length + 1) = (do
      m.check address
      m.check (address + 1) length) := by
  unfold check
  by_cases hneg : address < 0
  · simp only [if_pos hneg]
    rfl
  by_cases hend : (m.size : Int) < address + 1
  · have hlength : (m.size : Int) < address + (length + 1) := by omega
    simp only [if_neg hneg, if_pos hend, if_pos hlength]
    rfl
  have hnext : ¬ address + 1 < 0 := by omega
  have hmax : max address (m.size : Int) = max (address + 1) m.size := by omega
  have hsum : address + (length + 1) = address + 1 + length := by ring
  simp only [if_neg hneg, if_neg hend, if_neg hnext, hmax, hsum]
  rfl

/-- bytes are written one after the other -/
theorem write_cons (address : Nat) (b : UInt8) (bs : List UInt8) :
    m.write address (b :: bs) = (m.write address [b]).write (address + 1) bs := rfl

end Memory

namespace Sparse

/-- bytes at consecutive addresses as single cells, in ascending order -/
def run (address : Int) : List UInt8 → Sparse
  | [] => []
  | b :: bs => (address, b.toNat) :: run (address + 1) bs

theorem length_run (address : Int) (bs : List UInt8) : (run address bs).length = bs.length := by
  induction bs generalizing address with
  | nil => rfl
  | cons b bs ih => rw [run, List.length_cons, ih, List.length_cons]

end Sparse

namespace Image

/-- the low byte of a byte is the byte -/
theorem lowByte_toNat (b : UInt8) : UInt8.ofNat ((b.toNat : Int) % 256).toNat = b := by
  have hb : ((b.toNat : Int) % 256).toNat = b.toNat := by
    have hlt := b.toNat_lt
    omega
  rw [hb, UInt8.ofNat_toNat]

theorem checkCells_run (m : Memory) (address : Int) {bs : List UInt8} (h : bs ≠ []) :
    checkCells m (Sparse.run address bs) = m.check address bs.length := by
  induction bs generalizing address with
  | nil => exact absurd rfl h
  | cons b bs ih =>
    rw [Sparse.run, checkCells]
    cases bs with
    | nil =>
      simp only [Sparse.run, checkCells, List.length_singleton, Nat.cast_one]
      cases m.check address <;> rfl
    | cons b' bs =>
      have hlength : (1 : Int) ≤ ((b' :: bs).length : Nat) := by
        rw [List.length_cons]
        omega
      rw [ih (address + 1) (List.cons_ne_nil b' bs), List.length_cons (a := b), Nat.cast_succ, m.check_succ address hlength]

theorem foldl_write_run (m : Memory) {address : Int} (h : 0 ≤ address) (bs : List UInt8) :
    (Sparse.run address bs).foldl (fun m c => m.write c.1.toNat [UInt8.ofNat (c.2 % 256).toNat]) m =
      m.write address.toNat bs := by
  induction bs generalizing m address with
  | nil => rfl
  | cons b bs ih =>
    have hnext : (address + 1).toNat = address.toNat + 1 := by omega
    rw [Sparse.run, List.foldl_cons, lowByte_toNat, ih _ (by omega), hnext]
    exact (m.write_cons address.toNat b bs).symm

/-- bytes loaded one by one at consecutive addresses are bytes loaded at once -/
theorem loadCells_run (m : Memory) (address : Int) {bs : List UInt8} (h : bs ≠ []) :
    loadCells m (Sparse.run address bs) = loadBytes m address bs := by
  unfold loadCells loadBytes
  rw [checkCells_run m address h, Sparse.length_run]
  by_cases hneg : address < 0
  · unfold Memory.check
    rw [if_pos hneg]
    rfl
  · rw [foldl_write_run m (not_lt.1 hneg)]

theorem load_sparse_run (m : Memory) (address : Int) {bs : List UInt8} (h : bs ≠ []) :
    load m address (.sparse (Sparse.run address bs)) = load m address (.raw bs) := by
  rw [load, load, loadCells_run m address h]

/-- bytes that begin inside memory and do not end there are refused for the end of memory -/
theorem load_raw_of_overrun {m : Memory} {address : Int} {bs : List UInt8} (h : 0 ≤ address) (hstart : address ≤ m.size)
    (hoverrun : m.size < address + bs.length) :
    load m address (.raw bs) = .error (.fault (.addressOutOfBounds m.size m.size)) := by
  have hcheck : m.check address bs.length = .error (.addressOutOfBounds m.size m.size) := by
    unfold Memory.check
    rw [if_neg (not_lt.2 h), if_pos hoverrun, max_eq_right hstart]
  rw [load, loadBytes, hcheck]
  rfl

end Image

open Machine in
/-- **Bytes in a run and the same bytes in single cells are loaded alike.** Anything has been done with a machine of an
accepted configuration, whatever its random generator. Bytes are loaded where programs start, once as a run and once as
single cells in ascending order. If they fit, both have as many bytes to report and leave the same machine: what a reset
leaves, with the bytes where they belong and all others as they were. If they do not fit, both are refused for the end
of memory and leave what the reset left, in which nothing but the font is written. -/
theorem single_cells_load_alike {κ : Type} [Credit κ] {v : Value} {c : Config} {ns : List Notice} {m₀ : Machine κ}
    (hv : Config.ofValue v = (.ok c, ns)) (hm : create c = .ok m₀) (rng : Twister) (ops : List (Session.Op κ))
    {m : Machine κ} (h : m = (Session.after ops (.start (m₀.withRng rng))).machine) {bs : List UInt8} (hbs : bs ≠ []) :
    ∃ blank : Machine κ, reset m = .ok () blank ∧
      (∀ k, blank.state.memory.byte k =
        if c.fontStart.toNat ≤ k then Font.bytes[k - c.fontStart.toNat]?.getD 0 else 0) ∧
      (c.programStart + bs.length ≤ c.memorySize → ∃ t : Machine κ,
        load (.raw bs) m = .ok (bs.length, [.romLoaded bs.length]) t ∧
        load (.sparse (Sparse.run c.programStart bs)) m = .ok (bs.length, [.romLoaded bs.length]) t ∧
        t = { blank with state := { blank.state with memory := t.state.memory } } ∧
        (∀ (j : Nat) (hj : j < bs.length), t.state.memory.byte (c.programStart.toNat + j) = bs[j]) ∧
        ∀ k, k < c.programStart.toNat ∨ c.programStart.toNat + bs.length ≤ k →
          t.state.memory.byte k = blank.state.memory.byte k) ∧
      (c.memorySize < c.programStart + bs.length →
        load (.raw bs) m = .error (.load (.fault (.addressOutOfBounds c.memorySize c.memorySize.toNat))) blank ∧
        load (.sparse (Sparse.run c.programStart bs)) m =
          .error (.load (.fault (.addressOutOfBounds c.memorySize c.memorySize.toNat))) blank) := by
  have hc := Config.valid_of_ofValue hv
  have hprogram := hc.program_nonneg
  have hstart := hc.program_lt
  have hwithin : m.Within c := by
    rw [h]
    exact Session.machine_within hv hm rng ops
  have hsize : ((State.fresh c m.state.rng).memory.size : Int) = c.memorySize := (State.Within.fresh hc _).memory
  have hlimit := State.size_fresh c m.state.rng
  have hcells : load (.sparse (Sparse.run c.programStart bs)) m = load (.raw bs) m := by
    rw [load_apply hc hwithin, load_apply hc hwithin, Image.load_sparse_run _ _ hbs]
  refine ⟨fresh c m.state.rng, reset_apply hc hwithin, State.byte_fresh hc _, ?_, ?_⟩
  · intro hfits
    have hraw := load_raw hc hwithin hfits
    refine ⟨_, hraw, hcells.trans hraw, rfl, ?_, ?_⟩
    · intro j hj
      exact Memory.byte_write_of_mem _ j hj (by omega)
    · intro k hk
      exact Memory.byte_write_of_not_mem _ hk
  · intro hoverrun
    have hrefused : Image.load (State.fresh c m.state.rng).memory c.programStart (.raw bs) =
        .error (.fault (.addressOutOfBounds c.memorySize c.memorySize.toNat)) := by
      rw [← hlimit]
      rw [← hsize] at hstart hoverrun ⊢
      exact Image.load_raw_of_overrun hprogram hstart.le hoverrun
    have hraw : load (.raw bs) m =
        .error (.load (.fault (.addressOutOfBounds c.memorySize c.memorySize.toNat))) (fresh c m.state.rng) := by
      rw [load_apply hc hwithin, hrefused]
    exact ⟨hraw, hcells.trans hraw⟩

/-- two bytes fill the small machine's memory, and three are one too many -/
theorem small_single_cells :
    ∃ m : Machine Rat, m = (Session.after [.step, .setKey 3 true] (.start (Machine.small.withRng (.ofSeed 1)))).machine ∧
      (∃ t, Machine.load (.raw [0x60, 0x07]) m = .ok (2, [.romLoaded 2]) t ∧
        Machine.load (.sparse [(80, 0x60), (81, 0x07)]) m = .ok (2, [.romLoaded 2]) t ∧
        t.state.memory.byte 81 = 0x07) ∧
      ∃ blank, Machine.reset m = .ok () blank ∧
        Machine.load (.raw [0x60, 0x07, 0x12]) m = .error (.load (.fault (.addressOutOfBounds 82 82))) blank ∧
        Machine.load (.sparse [(80, 0x60), (81, 0x07), (82, 0x12)]) m =
          .error (.load (.fault (.addressOutOfBounds 82 82))) blank := by
  have hv : Config.ofValue Config.smallDocument = (.ok .small, []) := rfl
  have halike (bs : List UInt8) (hbs : bs ≠ []) := single_cells_load_alike hv Machine.create_small (.ofSeed 1)
    [.step, .setKey 3 true] rfl hbs
  obtain ⟨_, _, _, hfits, _⟩ := halike [0x60, 0x07] (List.cons_ne_nil _ _)
  obtain ⟨t, hraw, hcells, -, hbytes, -⟩ := hfits (by decide)
  obtain ⟨blank, hblank, -, -, hrefused⟩ := halike [0x60, 0x07, 0x12] (List.cons_ne_nil _ _)
  obtain ⟨hraw', hcells'⟩ := hrefused (by decide)
  exact ⟨_, rfl, ⟨t, hraw, hcells, hbytes 1 (by decide)⟩, blank, hblank, hraw', hcells'⟩

end Chip8
