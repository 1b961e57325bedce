/-
The widths that registers are shown with. General registers, stack pointer and timers hold bytes whatever is done with a
machine. I, the program counter and return addresses have sixteen bits as long as the configuration asks for a memory
that sixteen bits can address: nothing else keeps I below the end of the font, the program counter below the end of
memory, and a return address whole.

- `Register.Fits`: a register holds a number that it has room for.
- `registers_fit`: what fits in every session, and where the return of a call goes on.
- `wide_registers_overflow`: an accepted configuration under which I, the program counter and a return address do not
  fit.
-/
import Chip8.Proofs.Nesting
import Chip8.Proofs.PowerOn
import Chip8.Proofs.Stopping
import Chip8.Register

namespace Chip8

open Act

/-- the register holds a number that its width has room for -/
def Register.Fits (cpu : Cpu) (r : Register) : Prop := 0 ≤ r.value cpu ∧ r.value cpu < 2 ^ r.width

variable {c : Config} {cpu : Cpu}

/-- the registers of eight bits fit: they are bytes, numbers of slots and timers -/
theorem Cpu.Within.fits (h : cpu.Within c) (r : Register) (hi : r ≠ .i) (hpc : r ≠ .pc) : r.Fits cpu := by
  cases r with
  | v x =>
    have hbyte := (cpu.reg x).toNat_lt
    exact ⟨Int.natCast_nonneg _, Int.ofNat_lt.2 hbyte⟩
  | i => exact absurd rfl hi
  | pc => exact absurd rfl hpc
  | sp =>
    have htop := cpu.stack.top.isLt
    exact ⟨Int.natCast_nonneg _, Int.ofNat_lt.2 (htop.trans (by decide))⟩
  | dt => exact ⟨h.timers.delay_nonneg, h.timers.delay_lt⟩
  | st => exact ⟨h.timers.sound_nonneg, h.timers.sound_lt⟩

/-- I goes no further than sixteen bits and the start of the last glyph -/
theorem Cpu.Within.fits_i (h : cpu.Within c) (hfont : c.fontStart + 75 ≤ 0xFFFF) : Register.i.Fits cpu := by
  have hnonneg := h.i_nonneg
  have hle := h.i_le
  refine ⟨hnonneg, ?_⟩
  simp only [Register.value, Register.width]
  omega

theorem Cpu.Within.fits_pc (h : cpu.Within c) (hmemory : c.memorySize ≤ 0xFFFD) : Register.pc.Fits cpu := by
  have hle := h.pc_le
  refine ⟨Int.natCast_nonneg _, ?_⟩
  simp only [Register.value, Register.width]
  omega

/-- **What fits.** A machine is built from a configuration that was accepted, whichever random bytes it draws, and anything
is done with it in any order. Then all registers but I and the program counter fit. I fits if the last glyph of the font
starts at an address of sixteen bits, and the program counter if memory ends three addresses before sixteen bits do. When
a call is carried out, the return that belongs to it goes on at the low sixteen bits of the address after the call, and
that is the address after the call if memory has at most 65535 bytes. -/
theorem registers_fit {κ : Type} [Credit κ] {v : Value} {c : Config} {ns : List Notice} {m : Machine κ}
    (hv : Config.ofValue v = (.ok c, ns)) (hm : Machine.create c = .ok m) (rng : Twister) (ops : List (Session.Op κ))
    {s : State} (hs : s = (Session.after ops (.start (m.withRng rng))).machine.state) :
    (∀ r : Register, r ≠ .i → r ≠ .pc → r.Fits s.cpu) ∧
    (c.fontStart + 75 ≤ 0xFFFF → Register.i.Fits s.cpu) ∧
    (c.memorySize ≤ 0xFFFD → Register.pc.Fits s.cpu) ∧
    ∀ addr t, Effect.step c.profile s = .ok (.call addr) t →
      (∀ k : Fin 16, k.val = s.depth + 1 → t.cpu.stack.slots.get k = (s.cpu.pc + 2) % 0x10000) ∧
      (∀ es e, (∀ es', es' <+: es → (t.after c.profile es').depth ≠ s.depth) →
        (t.after c.profile (es ++ [e])).depth = s.depth →
        e = .step ∧ Effect.step c.profile (t.after c.profile es) = .ok .ret (t.after c.profile (es ++ [e])) ∧
          (t.after c.profile (es ++ [e])).cpu.pc = (s.cpu.pc + 2) % 0x10000) ∧
      (c.memorySize ≤ 0xFFFF → (s.cpu.pc + 2) % 0x10000 = s.cpu.pc + 2) := by
  have h : s.Within c := by
    rw [hs]
    exact (Session.machine_within hv hm rng ops).state
  refine ⟨h.cpu.fits, h.cpu.fits_i, h.cpu.fits_pc, fun addr t hcall => ?_⟩
  have hmade := Outstanding.of_step_call hcall
  refine ⟨hmade.entry, fun es e hne hback => hmade.resumes hne hback, fun hmemory => ?_⟩
  -- the call was fetched from inside memory, so the address after it is the end of memory at most
  obtain ⟨hfetch, -, -⟩ := Effect.stack_of_call hcall
  have hsize := h.memory
  exact Nat.mod_eq_of_lt (by omega)

/-- a call at the end of memory, and the return from it at the start -/
def Image.callFromEnd : Image := .sparse [(80, 0x20), (81, 0x00), (0, 0x00), (1, 0xEE)]

/-- the call is the last instruction there is room for, so the return goes on at the end of memory -/
theorem small_registers_fit :
    Config.ofValue Config.smallDocument = (.ok .small, []) ∧ Machine.create .small = .ok Machine.small ∧
      ∃ s t, s = (Session.after [.load .callFromEnd] (.start (Machine.small.withRng (.ofSeed 1)))).machine.state ∧
        Effect.step Config.small.profile s = .ok (.call 0) t ∧ (∀ r : Register, r.Fits s.cpu) ∧
        (t.after Config.small.profile [.step]).cpu.pc = 82 := by
  have hv : Config.ofValue Config.smallDocument = (.ok .small, []) := rfl
  generalize hs : (Session.after [.load .callFromEnd] (.start (Machine.small.withRng (.ofSeed 1)))).machine.state = s
  have hobstacle : s.obstacle? Config.small.profile = none := by
    rw [← hs]
    decide +kernel
  have hcall : s.instruction = .call 0 := by
    rw [← hs]
    decide +kernel
  have hstep := Effect.step_eq_ok.2 ⟨hobstacle, hcall.symm, rfl⟩
  obtain ⟨hothers, hi, hpc, hcalls⟩ := registers_fit hv Machine.create_small (.ofSeed 1) [.load .callFromEnd] hs.symm
  obtain ⟨-, hreturn, hwhole⟩ := hcalls 0 _ hstep
  have hback : ((s.next Config.small.profile).after Config.small.profile [.step]).depth = s.depth := by
    rw [← hs]
    decide +kernel
  have hdeep : (s.next Config.small.profile).depth ≠ s.depth := by
    rw [← hs]
    decide +kernel
  obtain ⟨-, -, hresume⟩ := hreturn [] .step (fun es' hes' => by
    rw [List.prefix_nil.1 hes']
    exact hdeep) hback
  have hstart : s.cpu.pc = 80 := by
    rw [← hs]
    decide +kernel
  refine ⟨hv, Machine.create_small, s, _, rfl, hstep, fun r => ?_, ?_⟩
  · by_cases hri : r = .i
    · rw [hri]
      exact hi (by decide)
    by_cases hrpc : r = .pc
    · rw [hrpc]
      exact hpc (by decide)
    exact hothers r hri hrpc
  · rw [hwhole (by decide), hstart] at hresume
    exact hresume

/-! ## Registers that do not fit -/

/-- a memory of 131072 bytes, the program just below the middle and the font just above -/
def Config.wide : Config := { memorySize := 0x20000, programStart := 0xFFFC, fontStart := 0x10000 }

def Config.wideDocument : Value :=
  .map [(.text "memory_size", .int 0x20000), (.text "program_start", .int 0xFFFC), (.text "font_start", .int 0x10000)]

theorem Config.valid_wide : Config.wide.Valid := (Config.validate_eq_ok .wide).1 rfl

/-- the machine built from it, with a program in memory -/
def State.wide (rng : Twister) (program : List UInt8) : State :=
  { State.fresh .wide rng with
    memory := (State.fresh .wide rng).memory.write Config.wide.programStart.toNat program }

variable (rng : Twister) {program : List UInt8}

/-- what is read from the program; where it has nothing, memory is zero up to the font -/
theorem State.byte_wide (program : List UInt8) (j : Nat) (hj : j < 4) :
    (State.wide rng program).memory.byte (0xFFFC + j) = program[j]?.getD 0 := by
  have hstart : Config.wide.programStart.toNat = 0xFFFC := rfl
  unfold State.wide
  rw [hstart]
  by_cases hlength : j < program.length
  · rw [Memory.byte_write_of_mem _ j hlength, List.getElem?_eq_getElem hlength, Option.getD_some]
    rw [State.size_fresh]
    change 0xFFFC + j < 0x20000
    omega
  · have hfont : Config.wide.fontStart.toNat = 0x10000 := rfl
    rw [Memory.byte_write_of_not_mem _ (by omega), State.byte_fresh Config.valid_wide, if_neg (by omega),
      List.getElem?_eq_none (not_lt.1 hlength), Option.getD_none]

theorem State.size_wide : (State.wide rng program).memory.size = 0x20000 := by
  unfold State.wide
  rw [Memory.size_write, State.size_fresh]
  rfl

theorem Machine.load_wide (h : program.length ≤ 4) :
    left (Machine.load (.raw program)) (Machine.fresh .wide rng : Machine Rat) =
      ⟨.wide, .wide rng program, Clock.zero⟩ := by
  have hfits : Config.wide.programStart + program.length ≤ Config.wide.memorySize := by
    change (0xFFFC : Int) + program.length ≤ 0x20000
    omega
  have hwithin : (Machine.fresh .wide rng : Machine Rat).Within .wide := ⟨rfl, State.Within.fresh Config.valid_wide rng⟩
  have hload := Machine.load_raw Config.valid_wide hwithin hfits
  exact left_of_ok hload

/-- a cycle that carries out the instruction at one of the first three places of the program -/
theorem Effect.step_wide {s : State} {ins : Instruction} (hmemory : s.memory = (State.wide rng program).memory) {j : Nat}
    (hj : j < 3) (hpc : s.cpu.pc = 0xFFFC + j)
    (hins : Instruction.decode (Word.ofBytes (program[j]?.getD 0) (program[j + 1]?.getD 0)) = ins)
    (hclear : ins.obstacle? Config.wide.profile s.fetched = none) :
    Effect.step Config.wide.profile s = .ok ins (ins.outcome Config.wide.profile s.fetched).counted := by
  have hfetch : s.cpu.pc + 1 < s.memory.size := by
    rw [hmemory, State.size_wide, hpc]
    omega
  have hword : s.instruction = ins := by
    rw [State.instruction, State.word, hmemory, hpc, Nat.add_assoc, State.byte_wide rng program j (by omega),
      State.byte_wide rng program (j + 1) (by omega), hins]
  refine Effect.step_eq_ok.2 ⟨?_, hword.symm, ?_⟩
  · rw [State.obstacle?, if_pos hfetch, hword, hclear]
  · rw [State.next, hword]

/-- I is set to the first glyph, and then a subroutine is called -/
def State.wideProgram : List UInt8 := [0xF0, 0x29, 0x23, 0x00]

/-- the state before the call -/
def State.wideCall : State :=
  { State.wide rng wideProgram with cpu := { pc := 0xFFFE, i := 0x10000 }, cycles := 1 }

theorem Effect.step_wide_glyph :
    Effect.step Config.wide.profile (State.wide rng State.wideProgram) = .ok (.glyph 0) (State.wideCall rng) :=
  Effect.step_wide rng rfl (j := 0) (by decide) rfl (by decide) rfl

theorem Effect.step_wide_call {s : State} (hmemory : s.memory = (State.wide rng State.wideProgram).memory)
    (hpc : s.cpu.pc = 0xFFFE) (hdepth : s.depth ≠ 15) :
    Effect.step Config.wide.profile s =
      .ok (.call 0x300) ((Instruction.call 0x300).outcome Config.wide.profile s.fetched).counted := by
  have htarget : s.memory.target? (0x300 : Fin 4096).val = none := by
    rw [Memory.target?, hmemory, State.size_wide, if_pos (by decide)]
  have hroom : (if s.depth = 15 then some Fault.stackOverflow else none) = none := if_neg hdepth
  exact Effect.step_wide rng hmemory (j := 2) (by decide) hpc (by decide) (Option.or_eq_none_iff.2 ⟨htarget, hroom⟩)

/-- where the program has nothing, nothing happens but that the program counter moves on -/
theorem Effect.step_wide_nothing {s : State} (hmemory : s.memory = (State.wide rng []).memory) {j : Nat} (hj : j < 3)
    (hpc : s.cpu.pc = 0xFFFC + j) : Effect.step Config.wide.profile s = .ok (.sys 0) s.fetched.counted := by
  refine Effect.step_wide rng hmemory hj hpc ?_ rfl
  rw [List.getElem?_nil, List.getElem?_nil]
  decide

/-- **Not every register fits under every configuration that is accepted.** A font that starts past the addresses of
sixteen bits brings I there, a program below their end brings the program counter there, and a call that is the last
instruction before their end notes address zero to return to. -/
theorem wide_registers_overflow :
    Config.ofValue Config.wideDocument = (.ok .wide, []) ∧ ∃ m : Machine Rat, Machine.create .wide = .ok m ∧
      (∃ s t, s = (Session.after [.load (.raw State.wideProgram), .step] (.start m)).machine.state ∧
        s.cpu.i = 0x10000 ∧ ¬ Register.i.Fits s.cpu ∧ Effect.step Config.wide.profile s = .ok (.call 0x300) t ∧
        s.cpu.pc + 2 = 0x10000 ∧ ∀ k : Fin 16, k.val = s.depth + 1 → t.cpu.stack.slots.get k = 0) ∧
      ¬ Register.pc.Fits (Session.after [.load (.raw []), .step, .step] (.start m)).machine.state.cpu := by
  have hcreate := Machine.create_eq (κ := Rat) Config.valid_wide
  rw [if_neg (by decide), if_neg (by decide)] at hcreate
  generalize Twister.ofSeed (Config.wide.seed.getD 0) = rng at hcreate
  have hload (program : List UInt8) (h : program.length ≤ 4) :
      (Session.start (Machine.fresh .wide rng : Machine Rat)).perform (.load (.raw program)) =
        .start ⟨.wide, .wide rng program, Clock.zero⟩ := by
    rw [← Machine.load_wide rng h]
    rfl
  have hstep (m : Machine Rat) : (Session.start m).perform .step = .start (left Machine.step m) := rfl
  simp only [Session.after, List.foldl_cons, List.foldl_nil]
  have hcall := Effect.step_wide_call rng (s := .wideCall rng) rfl rfl (Nat.zero_ne_add_one 14)
  refine ⟨rfl, .fresh .wide rng, hcreate, ⟨.wideCall rng, _, ?_, rfl, ?_, hcall, rfl, ?_⟩, ?_⟩
  · rw [hload _ (by decide), hstep, Machine.left_step, left_of_ok (Effect.step_wide_glyph rng)]
    rfl
  · intro hfits
    exact absurd hfits.2 (lt_irrefl _)
  · have hentry := (Outstanding.of_step_call hcall).entry
    rwa [show (State.wideCall rng).cpu.pc + 2 = 0x10000 from rfl, Nat.mod_self] at hentry
  · have hfirst := Effect.step_wide_nothing rng (s := .wide rng []) rfl (j := 0) (by decide) rfl
    have hsecond := Effect.step_wide_nothing rng (s := (State.wide rng []).fetched.counted) rfl (j := 2) (by decide) rfl
    rw [hload _ (by decide), hstep, Machine.left_step, left_of_ok hfirst, hstep, Machine.left_step, left_of_ok hsecond]
    intro hfits
    exact absurd hfits.2 (lt_irrefl _)

end Chip8
