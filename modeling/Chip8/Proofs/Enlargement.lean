/-
More memory. A state with zero bytes behind its memory does what the state itself does, as long as no cycle fails: the
size of memory decides whether an address lies inside it, and nothing else. So a program that works goes on working when
it is given more memory.

- `Memory.padded`, `State.padded`: zero bytes behind memory.
- `State.next_padded`: one cycle; `Machine.simulation_padded`: machines.
- `Image.load_padded`: loading.
- `enlargement_keeps_program`: loading a program, and everything after it.
-/
import Chip8.Proofs.Reload

namespace Chip8

open Act

/-! ## Memory -/

namespace Memory

/-- the memory with so many zero bytes behind it -/
def padded (m : Memory) (extra : Nat) : Memory := ⟨m.bytes ++ Array.replicate extra 0⟩

variable (m : Memory) (extra : Nat)

theorem size_padded : (m.padded extra).size = m.size + extra := by
  unfold padded size
  rw [Array.size_append, Array.size_replicate]

/-- the bytes behind memory read as zero whether they are there or not -/
theorem byte_padded (k : Nat) : (m.padded extra).byte k = m.byte k := by
  unfold padded byte
  simp only [Array.getD_eq_getD_getElem?, Array.getElem?_append, Array.getElem?_replicate]
  by_cases hk : k < m.bytes.size
  · rw [if_pos hk]
  · rw [if_neg hk, Array.getElem?_eq_none (by omega)]
    split_ifs <;> rfl

theorem zeros_padded (size : Nat) : (zeros size).padded extra = zeros (size + extra) := by
  unfold padded zeros
  rw [Array.replicate_append_replicate]

variable {m}

theorem read_padded {address length : Nat} (h : address + length ≤ m.size) :
    (m.padded extra).read address length = m.read address length := by
  have hstop : address + length - m.bytes.size = 0 := Nat.sub_eq_zero_of_le h
  unfold padded read
  rw [Array.extract_append, hstop, Array.extract_zero, Array.append_empty]

theorem blit_append {bytes zeros : Array UInt8} {address : Nat} {bs : List UInt8}
    (h : address + bs.length ≤ bytes.size) : blit (bytes ++ zeros) address bs = blit bytes address bs ++ zeros := by
  induction bs generalizing bytes address with
  | nil => rfl
  | cons b bs ih =>
    rw [List.length_cons] at h
    have hput : (bytes ++ zeros).setIfInBounds address b = bytes.setIfInBounds address b ++ zeros := by
      rw [Array.setIfInBounds_append, if_pos (by omega)]
    rw [blit, blit, hput]
    exact ih (by
      rw [Array.size_setIfInBounds]
      omega)

theorem write_padded {address : Nat} {bs : List UInt8} (h : address + bs.length ≤ m.size) :
    (m.padded extra).write address bs = (m.write address bs).padded extra := by
  unfold padded write
  rw [blit_append h]

theorem window?_padded {i : Int} {length : Nat} (h : m.window? i length = none) :
    (m.padded extra).window? i length = none := by
  rw [window?_eq_none] at h ⊢
  rw [size_padded]
  omega

theorem target?_padded {target : Nat} (h : m.target? target = none) : (m.padded extra).target? target = none := by
  have hlt := lt_size_of_target? h
  unfold target?
  rw [size_padded, if_pos (by omega)]

end Memory

/-! ## States -/

namespace State

def padded (s : State) (extra : Nat) : State := { s with memory := s.memory.padded extra }

variable {p : Profile} {s : State} {extra : Nat}

theorem instruction_padded (s : State) (extra : Nat) : (s.padded extra).instruction = s.instruction := by
  unfold instruction word padded
  simp only [Memory.byte_padded]

/-- what can be done in a memory can be done in a larger one -/
theorem obstacle?_ins_padded {ins : Instruction} (h : ins.obstacle? p s = none) :
    ins.obstacle? p (s.padded extra) = none := by
  cases ins with
  | jump addr => exact Memory.target?_padded extra h
  | jumpOffset addr => exact Memory.target?_padded extra h
  | call addr =>
    obtain ⟨htarget, hroom⟩ := Option.or_eq_none_iff.1 h
    exact Option.or_eq_none_iff.2 ⟨Memory.target?_padded extra htarget, hroom⟩
  | draw x y n => exact Memory.window?_padded extra h
  | decimal x => exact Memory.window?_padded extra h
  | store x => exact Memory.window?_padded extra h
  | restore x => exact Memory.window?_padded extra h
  | _ => exact h

/-- instructions read and write bytes inside memory only, and leave those behind it -/
theorem outcome_padded {ins : Instruction} (h : ins.obstacle? p s = none) :
    ins.outcome p (s.padded extra) = (ins.outcome p s).padded extra := by
  cases ins with
  | draw x y n =>
    have hread := Memory.read_padded extra (Memory.fits_of_window? h).2
    simp only [Instruction.outcome, drawn, padded, hread]
  | decimal x =>
    have hfits : s.cpu.i.toNat + (decimalDigits (s.cpu.reg x)).length ≤ s.memory.size := (Memory.fits_of_window? h).2
    have hwrite := Memory.write_padded extra hfits
    simp only [Instruction.outcome, padded, hwrite]
  | store x =>
    have hfits := (Memory.fits_of_window? h).2
    rw [← s.cpu.length_firstRegs x] at hfits
    have hwrite := Memory.write_padded extra hfits
    simp only [Instruction.outcome, padded, hwrite]
  | restore x =>
    have hread := Memory.read_padded extra (Memory.fits_of_window? h).2
    simp only [Instruction.outcome, padded, withCpu, hread]
  | _ => rfl

theorem obstacle?_padded (h : s.obstacle? p = none) : (s.padded extra).obstacle? p = none := by
  unfold obstacle? at h ⊢
  split_ifs at h with hfetch
  have hsize := s.memory.size_padded extra
  have hfetch' : (s.padded extra).cpu.pc + 1 < (s.padded extra).memory.size := by
    change s.cpu.pc + 1 < (s.memory.padded extra).size
    omega
  rw [if_pos hfetch', instruction_padded]
  exact obstacle?_ins_padded (s := s.fetched) h

/-- a cycle that does not fail does the same with more memory, and leaves the bytes behind memory zero -/
theorem next_padded (h : s.obstacle? p = none) : (s.padded extra).next p = (s.next p).padded extra := by
  unfold obstacle? at h
  split_ifs at h with hfetch
  have houtcome : s.instruction.outcome p (s.fetched.padded extra) = (s.instruction.outcome p s.fetched).padded extra :=
    outcome_padded h
  unfold next
  rw [instruction_padded, show (s.padded extra).fetched = s.fetched.padded extra from rfl, houtcome]
  rfl

/-- if all of some beats are done, all cycles that they attempt are carried out -/
theorem clear_of_attempted {bs : List Beat} {t u : State} (h : forM bs (Effect.beat p) s = .ok () t)
    (hu : u ∈ s.attempted p bs) : u.obstacle? p = none := by
  induction bs generalizing s with
  | nil => cases hu
  | cons b bs ih =>
    rw [List.forM_cons] at h
    obtain ⟨⟨⟩, v, hb, hrest⟩ := bind_eq_ok.1 h
    simp only [attempted, hb] at hu
    rcases List.mem_append.1 hu with hfirst | hlater
    · obtain ⟨rfl, rfl⟩ : b = .step ∧ u = s := by simpa using hfirst
      obtain ⟨ins, w, hstep, -⟩ := bind_eq_ok.1 hb
      exact (Effect.step_eq_ok.1 hstep).1
    · exact ih hrest hlater

end State

/-! ## Machines -/

namespace Machine

variable {κ : Type} [Credit κ] {m : Machine κ}

/-- if actions have no errors, all cycles that they attempt are carried out -/
theorem Action.clear_of_attempted {a : Action κ} {u : State} {answer : Answer} {t : Machine κ}
    (h : a.run m = .ok answer t) (hu : u ∈ a.attempted m) : u.obstacle? m.config.profile = none := by
  cases a with
  | step =>
    obtain rfl := List.mem_singleton.1 hu
    obtain ⟨ins, n, hstep, -⟩ := bind_eq_ok.1 h
    cases hclear : m.state.obstacle? m.config.profile with
    | none => rfl
    | some f =>
      rw [step_of_obstacle hclear] at hstep
      cases hstep
  | tick => cases hu
  | setKey key pressed => cases hu
  | advance elapsed =>
    obtain ⟨count, n, hadvance, -⟩ := bind_eq_ok.1 h
    exact State.clear_of_attempted (beats_of_advance hadvance).1 hu

theorem clear_of_attempted {as : List (Action κ)} {u : State} (h : ∀ r ∈ m.history as, ∃ answer t, r = .ok answer t)
    (hu : u ∈ m.attempted as) : u.obstacle? m.config.profile = none := by
  induction as generalizing m with
  | nil => cases hu
  | cons a as ih =>
    rcases List.mem_append.1 hu with hfirst | hlater
    · obtain ⟨answer, t, hrun⟩ := h _ List.mem_cons_self
      exact Action.clear_of_attempted hrun hfirst
    · have hclear := ih (fun r hr => h r (List.mem_cons_of_mem _ hr)) hlater
      rw [a.config_run] at hclear
      exact hclear

/-- machines that differ in how much memory there is go on so as long as no cycle fails -/
theorem simulation_padded {c d : Config} (extra : Nat) (hcpu : c.cpuHz = d.cpuHz) (htimer : c.timerHz = d.timerHz)
    (hprofile : c.profile = d.profile) :
    Simulation c d (fun s t => t = s.padded extra) fun s => s.obstacle? c.profile = none where
  cpuHz := hcpu
  timerHz := htimer
  cpu := by
    rintro s t rfl
    rfl
  withCpu := by
    rintro s t cpu rfl
    rfl
  step := by
    rintro s t rfl hclear
    rw [← hprofile, Effect.step_eq_ok.2 ⟨hclear, rfl, rfl⟩,
      Effect.step_eq_ok.2 ⟨State.obstacle?_padded hclear, rfl, rfl⟩, State.instruction_padded]
    exact .ok _ (State.next_padded hclear)

end Machine

/-! ## Programs that are loaded -/

namespace Image

variable {m t : Memory} {n : Nat}

theorem check_padded (extra : Nat) {address length : Int} (h : m.check address length = .ok ()) :
    (m.padded extra).check address length = .ok () := by
  have hfits := Memory.check_eq_ok_iff.1 h
  have hsize := m.size_padded extra
  exact Memory.check_eq_ok_iff.2 ⟨hfits.1, by omega⟩

theorem loadBytes_padded (extra : Nat) {address : Int} {bs : List UInt8} (h : loadBytes m address bs = .ok (t, n)) :
    loadBytes (m.padded extra) address bs = .ok (t.padded extra, n) := by
  obtain ⟨⟨⟩, hcheck, hwrite⟩ := ok_of_bind h
  cases hwrite
  have hfits := Memory.check_eq_ok_iff.1 hcheck
  rw [← Memory.write_padded extra (by omega), loadBytes, check_padded extra hcheck]
  rfl

theorem checkCells_padded (extra : Nat) {cells : Sparse} (h : checkCells m cells = .ok ()) :
    checkCells (m.padded extra) cells = .ok () := by
  have hsize := m.size_padded extra
  refine checkCells_eq_ok_iff.2 fun c hc => ?_
  obtain ⟨hlow, hhigh⟩ := checkCells_eq_ok_iff.1 h c hc
  exact ⟨hlow, by omega⟩

theorem foldl_write_padded (extra : Nat) {cells : Sparse} (h : ∀ c ∈ cells, c.1.toNat + 1 ≤ m.size) :
    cells.foldl (fun m c => m.write c.1.toNat [UInt8.ofNat (c.2 % 256).toNat]) (m.padded extra) =
      (cells.foldl (fun m c => m.write c.1.toNat [UInt8.ofNat (c.2 % 256).toNat]) m).padded extra := by
  induction cells generalizing m with
  | nil => rfl
  | cons c cells ih =>
    rw [List.foldl_cons, List.foldl_cons, Memory.write_padded extra (h c List.mem_cons_self)]
    refine ih fun d hd => ?_
    rw [Memory.size_write]
    exact h d (List.mem_cons_of_mem _ hd)

theorem loadCells_padded (extra : Nat) {cells : Sparse} (h : loadCells m cells = .ok (t, n)) :
    loadCells (m.padded extra) cells = .ok (t.padded extra, n) := by
  obtain ⟨⟨⟩, hcheck, hwrite⟩ := ok_of_bind h
  cases hwrite
  have hfits : ∀ c ∈ cells, c.1.toNat + 1 ≤ m.size := by
    intro c hc
    have hin := checkCells_eq_ok_iff.1 hcheck c hc
    omega
  rw [← foldl_write_padded extra hfits, loadCells, checkCells_padded extra hcheck]
  rfl

/-- an image that fits into a memory is loaded in the same way into a larger one -/
theorem load_padded (extra : Nat) {address : Int} {image : Image} (h : image.load m address = .ok (t, n)) :
    image.load (m.padded extra) address = .ok (t.padded extra, n) := by
  cases image with
  | raw bs =>
    have hload := loadBytes_padded extra (ok_of_mapError h)
    simp only [load, hload]
    rfl
  | numbers values =>
    simp only [load] at h ⊢
    cases hbytes : bytes? values with
    | none =>
      rw [hbytes] at h
      cases h
    | some bs =>
      rw [hbytes] at h
      have hload := loadBytes_padded extra (ok_of_mapError h)
      simp only [hload]
      rfl
  | sparse cells =>
    have hload := loadCells_padded extra (ok_of_mapError h)
    simp only [load, hload]
    rfl

end Image

/-- a fresh state of a larger memory is the fresh state of the smaller one with zero bytes behind it -/
theorem State.fresh_padded {c : Config} (hc : c.Valid) {size : Int} (hle : c.memorySize ≤ size) (rng : Twister) :
    State.fresh { c with memorySize := size } rng = (State.fresh c rng).padded (size - c.memorySize).toNat := by
  have hpos := hc.memory_pos
  have hfont := hc.font_nonneg
  have hfits := hc.font_le
  have hsize : size.toNat = c.memorySize.toNat + (size - c.memorySize).toNat := by omega
  have hwrite : c.fontStart.toNat + Font.bytes.length ≤ (Memory.zeros c.memorySize.toNat).size := by
    rw [Memory.size_zeros]
    omega
  simp only [fresh, padded, ← Memory.write_padded _ hwrite, Memory.zeros_padded, hsize]

/-- an image that is loaded into a machine is loaded in the same way into one with more memory -/
theorem Machine.load_enlarged {κ : Type} [Credit κ] {c : Config} {size : Int} {m m' loaded : Machine κ} {image : Image}
    {answer : Nat × List Notice} (hc : c.Valid) (hc' : { c with memorySize := size }.Valid) (hle : c.memorySize ≤ size)
    (hm : m.Within c) (hm' : m'.Within { c with memorySize := size }) (hrng : m'.state.rng = m.state.rng)
    (hload : load image m = .ok answer loaded) :
    ∃ loaded', load image m' = .ok answer loaded' ∧
      Paired c { c with memorySize := size } (fun s t => t = s.padded (size - c.memorySize).toNat) loaded loaded' := by
  have hfresh := State.fresh_padded hc hle m.state.rng
  rw [load_apply hc hm] at hload
  rw [load_apply hc' hm', hrng, hfresh]
  cases himage : image.load (State.fresh c m.state.rng).memory c.programStart with
  | error e =>
    rw [himage] at hload
    cases hload
  | ok loading =>
    obtain ⟨memory, count⟩ := loading
    rw [himage] at hload
    cases hload
    have hlarger : image.load ((State.fresh c m.state.rng).padded (size - c.memorySize).toNat).memory
        ({ c with memorySize := size } : Config).programStart =
          .ok (memory.padded (size - c.memorySize).toNat, count) := Image.load_padded _ himage
    rw [hlarger]
    exact ⟨_, rfl, rfl, rfl, rfl, rfl⟩

/-- **More memory does not change a program that works.** Two configurations that were accepted are the same but for the
size of memory. Machines are built from both, with the same random generator. If an image can be loaded into the
machine with less memory, it can be loaded into the other one with the same answer; and whatever is done with both after
that, instructions, timer beats, keys and time that passes, if it has no error on the machine with less memory, it has
none on the other one, the same answers on both, and leaves both after each action with the same processor, screen,
count, random generator and credit, and the larger memory as the smaller one with zero bytes behind it. -/
theorem enlargement_keeps_program {κ : Type} [Credit κ] {v v' : Value} {c c' : Config} {ns ns' : List Notice}
    {m m' : Machine κ} (hv : Config.ofValue v = (.ok c, ns)) (hv' : Config.ofValue v' = (.ok c', ns'))
    (hsame : c' = { c with memorySize := c'.memorySize }) (hle : c.memorySize ≤ c'.memorySize)
    (hm : Machine.create c = .ok m) (hm' : Machine.create c' = .ok m') (rng : Twister) {image : Image}
    {answer : Nat × List Notice} {loaded : Machine κ}
    (hload : Machine.load image (m.withRng rng) = .ok answer loaded) :
    ∃ loaded' : Machine κ, Machine.load image (m'.withRng rng) = .ok answer loaded' ∧
      Machine.Paired c c' (fun s t => t = s.padded (c'.memorySize - c.memorySize).toNat) loaded loaded' ∧
      ∀ as : List (Machine.Action κ), (∀ r ∈ loaded.history as, ∃ a t, r = .ok a t) →
        (∀ r ∈ loaded'.history as, ∃ a t, r = .ok a t) ∧
        List.Forall₂ (Agree (Machine.Paired c c' fun s t => t = s.padded (c'.memorySize - c.memorySize).toNat))
          (loaded.history as) (loaded'.history as) := by
  have hc := Config.valid_of_ofValue hv
  have hc' := Config.valid_of_ofValue hv'
  have hwithin := (Machine.Within.create hc hm).withRng rng
  have hwithin' := (Machine.Within.create hc' hm').withRng rng
  obtain ⟨size, rfl⟩ : ∃ size, c' = { c with memorySize := size } := ⟨_, hsame⟩
  obtain ⟨loaded', hload', hpaired⟩ := Machine.load_enlarged hc hc' hle hwithin hwithin' rfl hload
  refine ⟨loaded', hload', hpaired, fun as hok => ?_⟩
  have sim : Simulation c { c with memorySize := size } _ _ :=
    Machine.simulation_padded (size - c.memorySize).toNat rfl rfl rfl
  have hclear : ∀ u ∈ loaded.attempted as, u.obstacle? c.profile = none := by
    intro u hu
    rw [← hpaired.first]
    exact Machine.clear_of_attempted hok hu
  have hagree := sim.agree_history hpaired as hclear
  exact ⟨Agree.all_ok hagree hok, hagree⟩

/-- the small configuration with eighteen bytes more -/
def Config.roomy : Config := { Config.small with memorySize := 100 }

def Config.roomyDocument : Value :=
  .map [(.text "memory_size", .int 100), (.text "program_start", .int 80), (.text "font_start", .int 0),
    (.text "screen", .map [(.text "width", .int 1), (.text "height", .int 1)])]

def Machine.roomy : Machine Rat := .fresh .roomy (.ofSeed 0)

/-- the small machine with an instruction loaded into it -/
def Machine.oneLoaded : Machine Rat := left (load .oneLoad) (small.withRng (.ofSeed 1))

/-- an instruction at the end of the small memory, a key and a beat of the timers -/
theorem roomy_keeps_oneLoad :
    Config.ofValue Config.smallDocument = (.ok .small, []) ∧ Config.ofValue Config.roomyDocument = (.ok .roomy, []) ∧
      Machine.load .oneLoad (Machine.small.withRng (.ofSeed 1)) = .ok (2, [.romLoaded 2]) Machine.oneLoaded ∧
      (∀ r ∈ Machine.oneLoaded.history [.step, .setKey 1 true, .tick], ∃ a t, r = .ok a t) ∧
      ∃ loaded : Machine Rat,
        Machine.load .oneLoad (Machine.roomy.withRng (.ofSeed 1)) = .ok (2, [.romLoaded 2]) loaded ∧
        ∀ r ∈ loaded.history [.step, .setKey 1 true, .tick], ∃ a t, r = .ok a t := by
  have hv : Config.ofValue Config.smallDocument = (.ok .small, []) := rfl
  have hv' : Config.ofValue Config.roomyDocument = (.ok .roomy, []) := rfl
  have hm' : Machine.create .roomy = .ok Machine.roomy := rfl
  have hwithin := (Machine.Within.create (Config.valid_of_ofValue hv) Machine.create_small).withRng (.ofSeed 1)
  have hraw : Machine.load .oneLoad (Machine.small.withRng (.ofSeed 1)) = .ok (2, [.romLoaded 2]) _ :=
    Machine.load_raw (Config.valid_of_ofValue hv) hwithin (by decide)
  have hload :
      Machine.load .oneLoad (Machine.small.withRng (.ofSeed 1)) = .ok (2, [.romLoaded 2]) Machine.oneLoaded := by
    rw [Machine.oneLoaded, left_of_ok hraw, hraw]
  have hworks : ∀ r ∈ Machine.oneLoaded.history [.step, .setKey 1 true, .tick], ∃ a t, r = .ok a t := by
    have hall : (Machine.oneLoaded.history [.step, .setKey 1 true, .tick]).all (fun r => match r with
      | .ok _ _ => true
      | .error _ _ => false) = true := by decide +kernel
    intro r hr
    have hr := List.all_eq_true.1 hall r hr
    cases r with
    | ok a t => exact ⟨a, t, rfl⟩
    | error e t => cases hr
  obtain ⟨loaded, hload', -, hafter⟩ :=
    enlargement_keeps_program hv hv' rfl (by decide) Machine.create_small hm' (.ofSeed 1) hload
  exact ⟨hv, hv', hload, hworks, loaded, hload', (hafter _ hworks).1⟩

end Chip8
