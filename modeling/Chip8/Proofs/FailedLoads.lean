/-
Loads that fail. A file is read before the machine is touched, so one that holds no image leaves the machine as it is.
An image is checked as a whole before its first byte is written, but after the reset, so one that does not fit leaves
the machine as the reset left it, with nothing of the image in it. There is nothing in between: an image that fits is
loaded.

- `Rom`: what can be loaded, an image or a file; `Image.Unfit`: the images that a configuration has no room for.
- `Image.load_succeeds_iff`: which images can be put into memory.
- `Rom.loading_unread`, `Rom.loading_unfit`, `Rom.loading_fit`: the three ways in which a load ends, and what each of them
  adds to the log.
- `failed_load_defined`: all of them together, from any machine.
-/
import Chip8.Proofs.Reload

namespace Chip8

open Act

/-! ## Images that do not fit -/

/-- the image has a byte that memory has no place for, or a number that is no byte -/
def Image.Unfit (c : Config) : Image → Prop
  | .raw bs => ∃ k < bs.length, c.memorySize ≤ c.programStart + k
  | .numbers values => (∃ n ∈ values, n < 0 ∨ 256 ≤ n) ∨ ∃ k < values.length, c.memorySize ≤ c.programStart + k
  | .sparse cells => ∃ x ∈ cells, x.1 < 0 ∨ c.memorySize ≤ x.1

namespace Image

variable {m : Memory} {c : Config}

theorem loadBytes_succeeds_iff {address : Int} {bs : List UInt8} :
    (∃ r, loadBytes m address bs = .ok r) ↔ 0 ≤ address ∧ address + bs.length ≤ m.size := by
  rw [← Memory.check_eq_ok_iff]
  constructor
  · rintro ⟨r, h⟩
    obtain ⟨⟨⟩, hcheck, -⟩ := ok_of_bind h
    exact hcheck
  · intro hcheck
    rw [loadBytes, hcheck]
    exact ⟨_, rfl⟩

theorem loadCells_succeeds_iff {cells : Sparse} :
    (∃ r, loadCells m cells = .ok r) ↔ ∀ x ∈ cells, 0 ≤ x.1 ∧ x.1 < m.size := by
  rw [← checkCells_eq_ok_iff]
  constructor
  · rintro ⟨r, h⟩
    obtain ⟨⟨⟩, hcheck, -⟩ := ok_of_bind h
    exact hcheck
  · intro hcheck
    rw [loadCells, hcheck]
    exact ⟨_, rfl⟩

/-- numbers are bytes one by one -/
theorem bytes?_cons (n : Int) (ns : List Int) :
    bytes? (n :: ns) =
      if 0 ≤ n ∧ n < 256 then (bytes? ns).map (UInt8.ofNat n.toNat :: ·) else none := by
  unfold bytes?
  rw [List.mapM_cons]
  split_ifs with hbyte
  · cases ns.mapM (fun n => if 0 ≤ n ∧ n < 256 then some (UInt8.ofNat n.toNat) else none) <;> rfl
  · rfl

theorem bytes?_eq_none_iff {values : List Int} : bytes? values = none ↔ ∃ n ∈ values, n < 0 ∨ 256 ≤ n := by
  induction values with
  | nil => simp [bytes?]
  | cons n ns ih =>
    rw [bytes?_cons, List.exists_mem_cons_iff, ← ih]
    split_ifs with hbyte
    · have hin : ¬ (n < 0 ∨ 256 ≤ n) := by omega
      rw [Option.map_eq_none_iff, or_iff_right hin]
    · exact ⟨fun _ => .inl (by omega), fun _ => rfl⟩

theorem length_bytes? {values : List Int} {bs : List UInt8} (h : bytes? values = some bs) :
    bs.length = values.length := by
  induction values generalizing bs with
  | nil =>
    cases h
    rfl
  | cons n ns ih =>
    rw [bytes?_cons] at h
    split_ifs at h
    obtain ⟨rest, hrest, rfl⟩ := Option.map_eq_some_iff.1 h
    rw [List.length_cons, List.length_cons, ih hrest]

/-- a run of bytes from where programs start goes past the end of memory if one of them does -/
theorem overruns_iff (hstart : c.programStart < c.memorySize) (n : Nat) :
    (∃ k < n, c.memorySize ≤ c.programStart + k) ↔ c.memorySize < c.programStart + n := by
  constructor
  · rintro ⟨k, hk, hout⟩
    omega
  · intro hout
    exact ⟨n - 1, by omega, by omega⟩

/-- an image is put into memory if it fits -/
theorem load_succeeds_iff (hc : c.Valid) (hm : (m.size : Int) = c.memorySize) {image : Image} :
    (∃ r, image.load m c.programStart = .ok r) ↔ ¬ image.Unfit c := by
  have hlow := hc.program_nonneg
  have hstart := hc.program_lt
  have hbytes (bs : List UInt8) : (∃ r, (loadBytes m c.programStart bs).mapError LoadError.fault = .ok r) ↔
      ¬ ∃ k < bs.length, c.memorySize ≤ c.programStart + k := by
    simp only [mapError_eq_ok]
    rw [loadBytes_succeeds_iff, overruns_iff hstart, hm]
    omega
  cases image with
  | raw bs => exact hbytes bs
  | numbers values =>
    have hunfit : (numbers values).Unfit c ↔
        (∃ n ∈ values, n < 0 ∨ 256 ≤ n) ∨ ∃ k < values.length, c.memorySize ≤ c.programStart + k := Iff.rfl
    rw [hunfit, ← bytes?_eq_none_iff]
    cases hvalues : bytes? values with
    | none => simp [load, hvalues]
    | some bs =>
      rw [or_iff_right (Option.some_ne_none bs), ← length_bytes? hvalues, ← hbytes bs]
      simp only [load, hvalues]
  | sparse cells =>
    unfold load Unfit
    simp only [mapError_eq_ok]
    rw [loadCells_succeeds_iff, hm]
    constructor
    · rintro hall ⟨x, hx, hout⟩
      have hin := hall x hx
      omega
    · intro hnone x hx
      by_contra hout
      exact hnone ⟨x, hx, by omega⟩

end Image

/-! ## What can be loaded -/

/-- what a machine can be asked to load -/
inductive Rom where
  | direct (image : Image)
  | inFile (file : RomFile)

namespace Rom

/-- the image itself, or the one in the file -/
def read : Rom → Except RomFile.Error Image
  | direct image => .ok image
  | inFile f => f.image

variable {κ : Type} [Credit κ]

def load : Rom → MachineM κ (Nat × List Notice)
  | direct image => Machine.load image
  | inFile f => Machine.loadFile f

/-- ask a machine to load it, and report that behind what has been reported already -/
def loading : Rom → ReportM κ Nat
  | direct image => Machine.loading image
  | inFile f => Machine.loadingFile f

/-- what has been reported when the machine was asked to load it, whether it succeeded or not -/
def reports (rom : Rom) (m : Machine κ) : List Notice := (left rom.loading (m, [])).2

/-- only files in hexadecimal can hold no image -/
theorem hexadecimal_of_read {rom : Rom} {e : RomFile.Error} (h : rom.read = .error e) :
    ∃ f, rom = .inFile f ∧ f.isIntelHex = true := by
  cases rom with
  | direct image => cases h
  | inFile f =>
    refine ⟨f, rfl, ?_⟩
    by_contra hraw
    simp only [read, RomFile.image, if_neg hraw] at h
    cases h

theorem load_eq_reported (rom : Rom) : (rom.load : MachineM κ _) = Machine.reported rom.loading := by
  cases rom <;> rfl

theorem loading_eq (rom : Rom) :
    (rom.loading : ReportM κ _) = match rom.read with
      | .ok image => Machine.loading image
      | .error e => throw (.file e) := by
  cases rom <;> rfl

variable {c : Config} {m t : Machine κ} {rom : Rom} {ns : List Notice}

theorem load_of_read {image : Image} (h : rom.read = .ok image) : (rom.load : MachineM κ _) = Machine.load image := by
  rw [load_eq_reported, loading_eq, h]
  rfl

theorem load_of_loading_ok {count : Nat} (h : rom.loading (m, []) = .ok count (t, ns)) :
    rom.load m = .ok (count, ns) t := by
  rw [load_eq_reported, Machine.reported, h]

theorem load_of_loading_error {e : Machine.Error} (h : rom.loading (m, []) = .error e (t, ns)) :
    rom.load m = .error e t := by
  rw [load_eq_reported, Machine.reported, h]

variable (ns)

/-- what cannot be read is not loaded, and neither the machine nor the log is touched -/
theorem loading_unread {e : RomFile.Error} (h : rom.read = .error e) :
    rom.loading (m, ns) = .error (.file e) (m, ns) := by
  rw [loading_eq, h]
  rfl

/-- an image that does not fit is refused by a machine that has just been switched on, and nothing is reported -/
theorem loading_unfit (hc : c.Valid) (hm : m.Within c) {image : Image} (h : rom.read = .ok image)
    (hunfit : image.Unfit c) : ∃ e, rom.loading (m, ns) = .error (.load e) (Machine.fresh c m.state.rng, ns) := by
  have hsize := State.size_fresh_of_valid hc m.state.rng
  rw [loading_eq, h]
  simp only [Machine.loading_apply hc hm]
  cases hload : image.load (State.fresh c m.state.rng).memory c.programStart with
  | error e => exact ⟨e, rfl⟩
  | ok r => exact absurd hunfit ((Image.load_succeeds_iff hc hsize).1 ⟨r, hload⟩)

/-- an image that fits is loaded, and that is reported -/
theorem loading_fit (hc : c.Valid) (hm : m.Within c) {image : Image} (h : rom.read = .ok image)
    (hfits : ¬ image.Unfit c) : ∃ count t, rom.loading (m, ns) = .ok count (t, ns ++ [.romLoaded count]) := by
  have hsize := State.size_fresh_of_valid hc m.state.rng
  obtain ⟨⟨memory, count⟩, hload⟩ := (Image.load_succeeds_iff hc hsize).2 hfits
  rw [loading_eq, h]
  simp only [Machine.loading_apply hc hm, hload]
  exact ⟨count, _, rfl⟩

end Rom

/-- but for the random generator, all machines of a configuration are fresh when they are built -/
theorem Machine.withRng_of_create {κ : Type} [Credit κ] {c : Config} (hc : c.Valid) {m : Machine κ}
    (hm : create c = .ok m) (rng : Twister) : m.withRng rng = fresh c rng := by
  rw [create_eq hc] at hm
  split_ifs at hm
  cases hm
  rfl

/-- **A load that fails leaves a machine that is known.** Anything has been done with a machine of an accepted
configuration, and it is asked to load an image, or the one in a file. If the file cannot be read, which only happens to
files in hexadecimal, the error is what is wrong with the file, and the machine is as it was. If the image does not fit,
or has a number that is no byte, the load fails and leaves what a reset leaves: the machine as it was built, but for the
random generator, with nothing in memory but the font. In all other cases the load succeeds. The notice of a loaded
program is in the log if the load succeeded, and otherwise not. -/
theorem failed_load_defined {κ : Type} [Credit κ] {v : Value} {c : Config} {ns : List Notice} {m₀ m : Machine κ}
    (hv : Config.ofValue v = (.ok c, ns)) (hm₀ : Machine.create c = .ok m₀) (rng : Twister)
    (ops : List (Session.Op κ)) (hm : m = (Session.after ops (.start (m₀.withRng rng))).machine) (rom : Rom) :
    (∀ e, rom.read = .error e →
      (∃ f, rom = .inFile f ∧ f.isIntelHex = true) ∧ rom.load m = .error (.file e) m) ∧
    (∀ image, rom.read = .ok image → image.Unfit c →
      ∃ e, rom.load m = .error (.load e) (m₀.withRng m.state.rng)) ∧
    (Machine.reset m = .ok () (m₀.withRng m.state.rng) ∧
      ∀ k, (m₀.withRng m.state.rng).state.memory.byte k =
        if c.fontStart.toNat ≤ k then Font.bytes[k - c.fontStart.toNat]?.getD 0 else 0) ∧
    (∀ image, rom.read = .ok image → ¬ image.Unfit c →
      ∃ count t, rom.load m = .ok (count, [.romLoaded count]) t) ∧
    ((∃ count, .romLoaded count ∈ rom.reports m) ↔ ∃ answer t, rom.load m = .ok answer t) := by
  have hc := Config.valid_of_ofValue hv
  have hwithin : m.Within c := by
    rw [hm]
    exact Session.machine_within hv hm₀ rng ops
  have hfresh := Machine.withRng_of_create hc hm₀ m.state.rng
  rw [hfresh]
  have hunread {e : RomFile.Error} (he : rom.read = .error e) : rom.load m = .error (.file e) m :=
    Rom.load_of_loading_error (Rom.loading_unread [] he)
  refine ⟨fun e he => ⟨Rom.hexadecimal_of_read he, hunread he⟩, fun image himage hunfit => ?_,
    ⟨Machine.reset_apply hc hwithin, State.byte_fresh hc m.state.rng⟩, fun image himage hfits => ?_, ?_⟩
  · obtain ⟨e, he⟩ := Rom.loading_unfit [] hc hwithin himage hunfit
    exact ⟨e, Rom.load_of_loading_error he⟩
  · obtain ⟨count, t, ht⟩ := Rom.loading_fit [] hc hwithin himage hfits
    exact ⟨count, t, Rom.load_of_loading_ok ht⟩
  -- what is reported is read off the log that a load leaves, not off its answer
  unfold Rom.reports left
  cases hread : rom.read with
  | error e =>
    rw [hunread hread, Rom.loading_unread [] hread]
    simp
  | ok image =>
    by_cases hunfit : image.Unfit c
    · obtain ⟨e, he⟩ := Rom.loading_unfit [] hc hwithin hread hunfit
      rw [Rom.load_of_loading_error he, he]
      simp
    · obtain ⟨count, t, ht⟩ := Rom.loading_fit [] hc hwithin hread hunfit
      rw [Rom.load_of_loading_ok ht, ht]
      simp

/-- a file with nothing but a colon in it -/
def RomFile.colon : RomFile := ⟨"colon.hex", ⟨#[0x3A]⟩⟩

/-- a machine that has carried out an instruction, the file, and a byte below the first address -/
theorem small_failed_loads :
    ∃ m : Machine Rat,
      m = (Session.after [.step, .setKey 3 true] (.start (Machine.small.withRng (.ofSeed 1)))).machine ∧
      (Rom.inFile .colon).load m = .error (.file (.record (.tooShort 1 ":"))) m ∧
      ∃ e, (Rom.direct (.sparse [(80, 0x60), (-1, 0x07)])).load m =
        .error (.load e) (Machine.small.withRng m.state.rng) := by
  have hv : Config.ofValue Config.smallDocument = (.ok .small, []) := rfl
  have hcolon : (Rom.inFile .colon).read = .error (.record (.tooShort 1 ":")) := by
    unfold Rom.read RomFile.colon
    decide +kernel
  have hbelow : (Image.sparse [(80, 0x60), (-1, 0x07)]).Unfit .small := ⟨(-1, 0x07), by decide, .inl (by decide)⟩
  refine ⟨_, rfl, ?_, ?_⟩
  · exact ((failed_load_defined hv Machine.create_small (.ofSeed 1) [.step, .setKey 3 true] rfl _).1 _ hcolon).2
  · exact (failed_load_defined hv Machine.create_small (.ofSeed 1) [.step, .setKey 3 true] rfl _).2.1 _ rfl hbelow

end Chip8
