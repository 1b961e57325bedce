/-
The bounds that a machine keeps to. `Cpu.Within`, `State.Within` and `Machine.Within` are the bounds of a processor, of
a state and of a machine that were built from a configuration. Every instruction keeps them, whether it fails or not,
and so does everything that can be done in a session.

The bounds lean on each other: the program counter is bounded because every return address on the stack is, and a return
address is because it is the program counter just after a fetch, which only succeeds inside memory.

- `State.Within.step`: one cycle.
- `Session.Within.perform`: one operation.
- `session_within_bounds`: whatever is done with a machine built from an accepted configuration.
-/
import Chip8.Proofs.Accepted
import Chip8.Proofs.Atomicity
import Chip8.Proofs.Session
import Chip8.Proofs.Shape

namespace Chip8

open Effect Act

structure Cpu.Within (c : Config) (cpu : Cpu) : Prop where
  timers : cpu.WellFormed
  slots_le : ∀ (k : Nat) (hk : k < 16), (cpu.stack.slots[k] : Int) ≤ min 0xFFFF c.memorySize
  pc_le : (cpu.pc : Int) ≤ c.memorySize + 2
  i_nonneg : 0 ≤ cpu.i
  i_le : cpu.i ≤ max 0xFFFF (c.fontStart + 75)

structure State.Within (c : Config) (s : State) : Prop where
  cpu : s.cpu.Within c
  memory : (s.memory.size : Int) = c.memorySize
  screen : Screen.SameShape (.dark c.width.toNat c.height.toNat) s.screen

structure Machine.Within {κ : Type} (c : Config) (m : Machine κ) : Prop where
  config : m.config = c
  state : m.state.Within c

/-- the bounds of a session: those of its machine and of every processor saved from it -/
structure Session.Within {κ : Type} (c : Config) (s : Session κ) : Prop where
  machine : s.machine.Within c
  saved : ∀ cpu ∈ s.saved, cpu.Within c

variable {c : Config} {s : State}

/-! ## Instructions -/

/-- a return address just pushed is the program counter, cut to sixteen bits; the other slots are as they were -/
theorem CallStack.pushed_le {st : CallStack} {pc : Nat} {bound : Int}
    (hst : ∀ (k : Nat) (hk : k < 16), (st.slots[k] : Int) ≤ min 0xFFFF bound) (hpc : (pc : Int) ≤ bound) (k : Nat)
    (hk : k < 16) : ((st.pushed pc).slots[k] : Int) ≤ min 0xFFFF bound := by
  unfold CallStack.pushed
  split_ifs with h
  · simp only [Vector.getElem_set]
    split_ifs
    · omega
    · exact hst k hk
  · exact hst k hk

theorem Cpu.Within.slots_outcome (h : s.cpu.Within c) (hpc : (s.cpu.pc : Int) ≤ c.memorySize) (ins : Instruction)
    (k : Nat) (hk : k < 16) : ((ins.outcome c.profile s).cpu.stack.slots[k] : Int) ≤ min 0xFFFF c.memorySize := by
  rw [ins.outcome_stack]
  split
  · exact h.slots_le k hk
  · exact CallStack.pushed_le h.slots_le hpc k hk
  · exact h.slots_le k hk

theorem Memory.lt_size_of_target? {m : Memory} {target : Nat} (h : m.target? target = none) : target < m.size := by
  unfold Memory.target? at h
  split_ifs at h with hlt
  exact hlt

/-- nothing stands against using bytes from I on exactly if they lie inside memory -/
theorem Memory.window?_eq_none {m : Memory} {i : Int} {length : Nat} :
    m.window? i length = none ↔ 0 ≤ i ∧ i + length ≤ m.size := by
  unfold Memory.window?
  split_ifs <;> simp <;> omega

theorem Memory.fits_of_window? {m : Memory} {i : Int} {length : Nat} (h : m.window? i length = none) :
    0 ≤ i ∧ i.toNat + length ≤ m.size := by
  obtain ⟨hstart, hend⟩ := Memory.window?_eq_none.1 h
  omega

/-- from a program counter inside memory, an instruction goes two addresses past the end of memory at most -/
theorem State.Within.pc_outcome (h : s.Within c) (hpc : (s.cpu.pc : Int) ≤ c.memorySize) (ins : Instruction)
    (hins : ins.obstacle? c.profile s = none) : ((ins.outcome c.profile s).cpu.pc : Int) ≤ c.memorySize + 2 := by
  have hmemory := h.memory
  rw [ins.outcome_pc]
  cases ins with
  | ret =>
    have := h.cpu.slots_le s.cpu.stack.top.val s.cpu.stack.top.isLt
    simp only [Fin.getElem_fin]
    omega
  | jump addr =>
    have := Memory.lt_size_of_target? hins
    simp only
    omega
  | call addr =>
    have := Memory.lt_size_of_target? (Option.or_eq_none_iff.1 hins).1
    simp only
    omega
  | jumpOffset addr =>
    have := Memory.lt_size_of_target? hins
    simp only
    omega
  | _ =>
    simp only
    try split_ifs
    all_goals omega

theorem State.Within.i_outcome (h : s.Within c) (hc : c.Valid) (ins : Instruction) :
    0 ≤ (ins.outcome c.profile s).cpu.i ∧ (ins.outcome c.profile s).cpu.i ≤ max 0xFFFF (c.fontStart + 75) := by
  have hfont := hc.font_nonneg
  have hi := h.cpu.i_nonneg
  have hi' := h.cpu.i_le
  rw [ins.outcome_i]
  split
  · omega
  · omega
  · simp only [Config.profile, Font.glyphSize]
    omega
  · split_ifs <;> omega
  · split_ifs <;> omega
  · exact ⟨hi, hi'⟩

theorem Instruction.size_outcome (p : Profile) (s : State) (ins : Instruction) :
    (ins.outcome p s).memory.size = s.memory.size := by
  rw [ins.outcome_memory]
  split
  · exact s.memory.size_write _ _
  · exact s.memory.size_write _ _
  · rfl

theorem State.Within.screen_outcome (h : s.Within c) (ins : Instruction) :
    Screen.SameShape (.dark c.width.toNat c.height.toNat) (ins.outcome c.profile s).screen := by
  rw [ins.outcome_screen]
  split
  · rw [Screen.clear_of_sameShape h.screen]
    exact Screen.SameShape.refl _
  · exact h.screen.trans (s.screen.draw_sameShape _ _ _ _)
  · exact h.screen

/-- an instruction that nothing stands against keeps the bounds -/
theorem State.Within.outcome (h : s.Within c) (hc : c.Valid) (hpc : (s.cpu.pc : Int) ≤ c.memorySize) (ins : Instruction)
    (hins : ins.obstacle? c.profile s = none) : (ins.outcome c.profile s).Within c := by
  obtain ⟨hi, hi'⟩ := h.i_outcome hc ins
  refine ⟨⟨h.cpu.timers.outcome c.profile ins, h.cpu.slots_outcome hpc ins, h.pc_outcome hpc ins hins, hi, hi'⟩, ?_,
    h.screen_outcome ins⟩
  rw [ins.size_outcome, h.memory]

/-! ## Cycles -/

theorem State.Within.withCpu (h : s.Within c) {cpu : Cpu} (hcpu : cpu.Within c) : (s.withCpu cpu).Within c :=
  ⟨hcpu, h.memory, h.screen⟩

theorem Cpu.Within.withPc {cpu : Cpu} (h : cpu.Within c) {pc : Nat} (hpc : (pc : Int) ≤ c.memorySize + 2) :
    Cpu.Within c { cpu with pc } :=
  ⟨⟨h.timers.delay_nonneg, h.timers.delay_lt, h.timers.sound_nonneg, h.timers.sound_lt⟩, h.slots_le, hpc, h.i_nonneg,
    h.i_le⟩

theorem Cpu.Within.withKeys {cpu : Cpu} (h : cpu.Within c) (keys : Vector Bool 16) : Cpu.Within c { cpu with keys } :=
  ⟨⟨h.timers.delay_nonneg, h.timers.delay_lt, h.timers.sound_nonneg, h.timers.sound_lt⟩, h.slots_le, h.pc_le,
    h.i_nonneg, h.i_le⟩

theorem State.Within.fetched (h : s.Within c) (hpc : s.cpu.pc + 1 < s.memory.size) :
    s.fetched.Within c ∧ (s.fetched.cpu.pc : Int) ≤ c.memorySize := by
  have hle : ((s.cpu.pc + 2 : Nat) : Int) ≤ c.memorySize := by
    rw [← h.memory]
    omega
  exact ⟨h.withCpu (h.cpu.withPc (hle.trans (by omega))), hle⟩

/-- a cycle keeps the bounds, whether it fails or not -/
theorem State.Within.step (hc : c.Valid) : Keeps (State.Within c) (Effect.step c.profile) := by
  intro s hs
  unfold left
  rw [step_eq]
  unfold State.obstacle? State.halted
  split_ifs with hpc
  · obtain ⟨hf, hle⟩ := hs.fetched hpc
    cases hins : s.instruction.obstacle? c.profile s.fetched with
    | some f => exact hf
    | none =>
      have ht := hf.outcome hc hle s.instruction hins
      exact ⟨ht.cpu, ht.memory, ht.screen⟩
  · exact hs

theorem Cpu.Within.tick {cpu : Cpu} (h : cpu.Within c) : cpu.tick.Within c := by
  have hdelay := h.timers.delay_nonneg
  have hdelay' := h.timers.delay_lt
  have hsound := h.timers.sound_nonneg
  have hsound' := h.timers.sound_lt
  refine ⟨⟨?_, ?_, ?_, ?_⟩, h.slots_le, h.pc_le, h.i_nonneg, h.i_le⟩
  all_goals
    simp only [Cpu.tick, Cpu.countDown]
    split_ifs <;> omega

theorem State.Within.tick : Keeps (State.Within c) Effect.tick := fun _ hs => hs.withCpu hs.cpu.tick

theorem State.Within.setKey (key : Int) (pressed : Bool) : Keeps (State.Within c) (Effect.setKey key pressed) := by
  refine Keeps.get_bind fun s hs => ?_
  cases h : s.cpu.setKey key pressed with
  | error f => exact hs
  | ok cpu =>
    obtain ⟨k, -, hk⟩ := ok_of_bind h
    cases hk
    exact hs.withCpu (hs.cpu.withKeys _)

/-! ## Machines -/

namespace Machine

variable {κ α : Type}

theorem silently_apply (a : MachineM κ α) (m : Machine κ) (ns : List Notice) :
    silently a (m, ns) = match a m with
      | .ok r t => .ok r (t, ns)
      | .error e t => .error e (t, ns) := rfl

theorem left_silently (a : MachineM κ α) (m : Machine κ) (ns : List Notice) :
    left (silently a) (m, ns) = (left a m, ns) := by
  unfold left
  rw [silently_apply]
  cases a m <;> rfl

theorem left_reported (a : ReportM κ α) (m : Machine κ) : left (reported a) m = (left a (m, [])).1 := by
  unfold left reported
  cases a (m, []) <;> rfl

end Machine

theorem Cpu.Within.zero (hc : c.Valid) : Cpu.Within c {} := by
  have hmemory := hc.memory_pos
  have hslot (k : Nat) (hk : k < 16) : (Vector.replicate 16 0 : Vector Nat 16)[k] = 0 := Vector.getElem_replicate hk
  refine ⟨Cpu.WellFormed.zero, ?_, ?_, le_refl 0, ?_⟩
  · intro k hk
    simp only [hslot k hk]
    omega
  · simp only
    omega
  · simp only
    omega

/-- switching on leads to the bounds; of what was there before, only the sizes matter -/
theorem State.Within.powerOn (hc : c.Valid) {s t : State} (hmemory : (s.memory.size : Int) = c.memorySize)
    (hscreen : Screen.SameShape (.dark c.width.toNat c.height.toNat) s.screen)
    (h : Machine.powerOn c s = .ok t) : t.Within c := by
  obtain ⟨memory, hfont, ht⟩ := ok_of_bind h
  cases ht
  have hprogram := hc.program_nonneg
  have hprogram' := hc.program_lt
  refine ⟨(Cpu.Within.zero hc).withPc (by omega), ?_, ?_⟩
  · rw [Font.size_load hfont, Memory.size_zeros, hmemory]
  · rw [Screen.clear_of_sameShape hscreen]
    exact Screen.SameShape.refl _

namespace Machine.Within

variable {κ : Type}

theorem withRng {m : Machine κ} (h : m.Within c) (rng : Twister) : (m.withRng rng).Within c :=
  ⟨h.config, h.state.cpu, h.state.memory, h.state.screen⟩

theorem act {α : Type} {a : Effect α} (ha : Keeps (State.Within c) a) :
    Keeps (Machine.Within c) (Machine.act a : MachineM κ α) := by
  intro m hm
  unfold left Machine.act
  cases h : a m.state with
  | ok r s => exact ⟨hm.config, ha.ok hm.state h⟩
  | error f s => exact ⟨hm.config, ha.error hm.state h⟩

theorem step (hc : c.Valid) : Keeps (Machine.Within c) (Machine.step : MachineM κ Instruction) := by
  refine Keeps.get_bind fun m hm => ?_
  rw [hm.config]
  exact act (State.Within.step hc) m hm

theorem tick : Keeps (Machine.Within c) (Machine.tick : MachineM κ Unit) := act State.Within.tick

theorem steps (hc : c.Valid) (n : Nat) : Keeps (Machine.Within c) (Machine.steps n : MachineM κ Unit) := by
  induction n with
  | zero => exact Keeps.pure _
  | succ n ih => exact (step hc).bind fun _ => ih

theorem runFrame (hc : c.Valid) : Keeps (Machine.Within c) (Machine.runFrame : MachineM κ Nat) := by
  refine Keeps.get_bind fun m hm => ?_
  exact ((Keeps.ofExcept _).bind fun n => (steps hc n).bind fun _ => tick.bind fun _ => Keeps.pure _) m hm

theorem beat (hc : c.Valid) (b : Beat) : Keeps (Machine.Within c) (Machine.beat b : MachineM κ Unit) := by
  cases b with
  | step => exact (step hc).bind fun _ => Keeps.pure _
  | tick => exact tick

theorem place (image : Image) : Keeps (Machine.Within c) (Machine.place image : MachineM κ Nat) := by
  refine Keeps.get_bind fun m hm => ?_
  cases h : image.load m.state.memory m.config.programStart with
  | error e => exact hm
  | ok r =>
    have hsize : (r.1.size : Int) = c.memorySize := by
      rw [Image.size_load h, hm.state.memory]
    exact ⟨hm.config, hm.state.cpu, hsize, hm.state.screen⟩

/-- what an operation keeps, it keeps when notices are carried along -/
theorem silently {α : Type} {a : MachineM κ α} (ha : Keeps (Machine.Within c) a) :
    Keeps (fun s : Machine κ × List Notice => s.1.Within c) (Machine.silently a) := by
  rintro ⟨m, ns⟩ hm
  rw [left_silently]
  exact ha m hm

theorem reported {α : Type} {a : ReportM κ α} (ha : Keeps (fun s : Machine κ × List Notice => s.1.Within c) a) :
    Keeps (Machine.Within c) (Machine.reported a) := by
  intro m hm
  rw [left_reported]
  exact ha (m, []) hm

variable [Credit κ]

theorem reset (hc : c.Valid) : Keeps (Machine.Within c) (Machine.reset : MachineM κ Unit) := by
  intro m hm
  obtain rfl := hm.config
  unfold left Machine.reset
  cases h : Machine.powerOn m.config m.state with
  | ok s => exact ⟨rfl, State.Within.powerOn hc hm.state.memory hm.state.screen h⟩
  | error f => exact hm

theorem loading (hc : c.Valid) (image : Image) :
    Keeps (fun s : Machine κ × List Notice => s.1.Within c) (Machine.loading image) := by
  have hreport (n : Notice) : Keeps (fun s : Machine κ × List Notice => s.1.Within c) (Machine.report n) :=
    Keeps.modify fun _ hs => hs
  exact (silently (reset hc)).bind fun _ => (silently (place image)).bind fun count =>
    (hreport (.romLoaded count)).bind fun _ => Keeps.pure _

theorem load (hc : c.Valid) (image : Image) :
    Keeps (Machine.Within c) (Machine.load image : MachineM κ (Nat × List Notice)) := reported (loading hc image)

theorem loadFile (hc : c.Valid) (file : RomFile) :
    Keeps (Machine.Within c) (Machine.loadFile file : MachineM κ (Nat × List Notice)) := by
  refine reported ?_
  unfold Machine.loadingFile
  cases file.image with
  | ok image => exact loading hc image
  | error e => exact Keeps.throw _

/-- the induction is on the beats left; taking one out of the credit leaves the state alone -/
theorem drive (hc : c.Valid) (rates : Rates κ) (fuel executed : Nat) :
    Keeps (Machine.Within c) (Machine.drive rates fuel executed) := by
  induction fuel generalizing executed with
  | zero => exact Keeps.pure _
  | succ fuel ih =>
    refine Keeps.get_bind fun m hm => ?_
    cases m.clock.next? rates with
    | none => exact hm
    | some r => exact ((beat hc r.1).bind fun _ => ih _) { m with clock := r.2 } ⟨hm.config, hm.state⟩

theorem rate (hz : Int) : Keeps (Machine.Within c) (Machine.rate hz : MachineM κ κ) := by
  unfold Machine.rate
  cases (Credit.ofInt? hz : Option κ) with
  | none => exact Keeps.throw _
  | some r => exact Keeps.pure _

theorem advance (hc : c.Valid) (elapsed : κ) : Keeps (Machine.Within c) (Machine.advance elapsed) := by
  have hclock (f : Machine κ → Clock κ) :
      Keeps (Machine.Within c) (modify fun m => { m with clock := f m } : MachineM κ Unit) :=
    Keeps.modify fun m hm => ⟨hm.config, hm.state⟩
  unfold Machine.advance
  split_ifs
  · exact Keeps.throw _
  exact Keeps.get.bind fun _ => (rate _).bind fun _ => (hclock _).bind fun _ => Keeps.get.bind fun _ =>
    (rate _).bind fun _ => (hclock _).bind fun _ => Keeps.get.bind fun _ => drive hc _ _ _

/-- a machine is built within its bounds -/
theorem create (hc : c.Valid) {m : Machine κ} (h : Machine.create c = .ok m) : m.Within c := by
  obtain ⟨memory, hmemory, h⟩ := ok_of_bind h
  obtain ⟨screen, hscreen, h⟩ := ok_of_bind h
  obtain ⟨s, hs, h⟩ := ok_of_bind h
  cases h
  refine ⟨rfl, State.Within.powerOn hc ?_ ?_ (ok_of_mapError hs)⟩
  · exact Memory.size_create (ok_of_mapError hmemory)
  · rw [Screen.create_eq_dark (ok_of_mapError hscreen)]
    exact Screen.SameShape.refl _

end Machine.Within

/-! ## Sessions -/

namespace Session.Within

variable {κ : Type}

theorem debuggerStep (hc : c.Valid) :
    Keeps (fun d : Debugger κ => d.machine.Within c) (Debugger.step : EStateM Fault (Debugger κ) Instruction) := by
  intro d hd
  obtain ⟨hconfig, hstate⟩ := Debugger.keeps_step (State.Within.step hc) d ⟨hd.config, hd.state⟩
  exact ⟨hconfig, hstate⟩

/-- wherever a run of the debugger ends, the machine is within its bounds. The induction is on the instructions left to
carry out -/
theorem debuggerRun (hc : c.Valid) (limit stopDuring : Option Nat) (fuel executed : Nat) {d : Debugger κ}
    (hd : d.machine.Within c) {stop : Debugger.Stop κ}
    (h : Debugger.runFrom limit stopDuring fuel executed d = some stop) : stop.debugger.machine.Within c := by
  induction fuel generalizing executed d with
  | zero => cases h
  | succ fuel ih =>
    rcases Debugger.runFrom_cases h with
      ⟨-, rfl⟩ | ⟨-, -, rfl⟩ | ⟨-, -, ⟨f, after, hstep, -, rfl⟩ | ⟨f, after, hstep, -, rfl⟩ | hok⟩
    · exact hd
    · exact hd
    · have hafter := (debuggerStep hc).error hd hstep
      exact ⟨hafter.config, hafter.state⟩
    · exact (debuggerStep hc).error hd hstep
    · rcases hok with ⟨ins, after, hstep, ⟨-, rfl⟩ | ⟨-, -, rfl⟩ | ⟨-, -, hrest⟩⟩
      · exact (debuggerStep hc).ok hd hstep
      · exact (debuggerStep hc).ok hd hstep
      · exact ih _ ((debuggerStep hc).ok hd hstep) hrest

variable {s : Session κ}

theorem withState (h : s.Within c) {t : State} (ht : t.Within c) : (s.withState t).Within c :=
  ⟨⟨h.machine.config, ht⟩, h.saved⟩

theorem onMachine {α : Type} {a : MachineM κ α} (ha : Keeps (Machine.Within c) a) (h : s.Within c) :
    (s.onMachine a).Within c :=
  ⟨ha _ h.machine, h.saved⟩

theorem start {m : Machine κ} (hm : m.Within c) : (Session.start m).Within c :=
  ⟨hm, fun _ hcpu => absurd hcpu List.not_mem_nil⟩

variable [Credit κ]

/-- **Every operation keeps the bounds,** whether it fails or not. -/
theorem perform (hc : c.Valid) (h : s.Within c) (op : Session.Op κ) : (s.perform op).Within c := by
  cases op with
  | step => exact h.onMachine (Machine.Within.step hc)
  | tick => exact h.onMachine Machine.Within.tick
  | runFrame => exact h.onMachine (Machine.Within.runFrame hc)
  | advance elapsed => exact h.onMachine (Machine.Within.advance hc elapsed)
  | reset => exact h.onMachine (Machine.Within.reset hc)
  | load image => exact h.onMachine (Machine.Within.load hc image)
  | loadFile file => exact h.onMachine (Machine.Within.loadFile hc file)
  | setKey key pressed => exact h.onMachine (Machine.Within.act (State.Within.setKey key pressed))
  | setPixel x y on =>
    have hs := h.machine.state
    simp only [Session.perform]
    cases hpixel : s.machine.state.screen.setPixel x y on with
    | ok screen => exact h.withState ⟨hs.cpu, hs.memory, hs.screen.trans (Screen.setPixel_sameShape hpixel)⟩
    | error e => exact h
  | debugStep => exact ⟨debuggerStep hc _ h.machine, h.saved⟩
  | run limit stopDuring fuel =>
    simp only [Session.perform]
    cases hrun : s.debugger.run limit stopDuring fuel with
    | some stop =>
      have hd : Debugger.machine { s.debugger with lastFault := none } |>.Within c := h.machine
      exact ⟨debuggerRun hc limit stopDuring fuel 0 hd hrun, h.saved⟩
    | none => exact h
  | addBreakpoint b => exact ⟨h.machine, h.saved⟩
  | updateBreakpoint old new => exact ⟨h.machine, h.saved⟩
  | removeBreakpoint b => exact ⟨h.machine, h.saved⟩
  | save =>
    refine ⟨h.machine, fun cpu hcpu => ?_⟩
    rcases List.mem_append.1 hcpu with hcpu | hcpu
    · exact h.saved cpu hcpu
    · rw [List.mem_singleton.1 hcpu]
      exact h.machine.state.cpu
  | restore slot =>
    have hs := h.machine.state
    simp only [Session.perform]
    cases hslot : s.saved[slot]? with
    | some cpu => exact h.withState ⟨h.saved cpu (List.mem_of_getElem? hslot), hs.memory, hs.screen⟩
    | none => exact h

theorem after (hc : c.Valid) (h : s.Within c) (ops : List (Session.Op κ)) : (Session.after ops s).Within c :=
  Session.after_induction (P := Session.Within c) (fun _ op hs => perform hc hs op) ops h

end Session.Within

/-! ## Bounds -/

/-- whatever is done in a session with a machine built from an accepted configuration, and whichever random bytes it
draws, the machine keeps to its bounds -/
theorem Session.machine_within {κ : Type} [Credit κ] {v : Value} {c : Config} {ns : List Notice} {m : Machine κ}
    (hv : Config.ofValue v = (.ok c, ns)) (hm : Machine.create c = .ok m) (rng : Twister) (ops : List (Session.Op κ)) :
    (Session.after ops (.start (m.withRng rng))).machine.Within c := by
  have hc := Config.valid_of_ofValue hv
  exact (Session.Within.after hc (.start ((Machine.Within.create hc hm).withRng rng)) ops).machine

/-- **The bounds hold throughout.** A machine is built from a configuration that was accepted, whichever random bytes it
draws, and anything is done with it in any order; what fails stays as far as it came. Then there are sixteen registers,
stack slots and keys, registers and timers hold bytes, the stack pointer is at most 15, every slot is an address of
sixteen bits not past the end of memory, the program counter is two past the end of memory at most, I is not negative and
at most 65535 or the end of the font, and memory and screen have the sizes they were built with. -/
theorem session_within_bounds {κ : Type} [Credit κ] {v : Value} {c : Config} {ns : List Notice} {m : Machine κ}
    (hv : Config.ofValue v = (.ok c, ns)) (hm : Machine.create c = .ok m) (rng : Twister) (ops : List (Session.Op κ))
    {s : State} (hs : s = (Session.after ops (.start (m.withRng rng))).machine.state) :
    (s.cpu.v.toList.length = 16 ∧ ∀ b ∈ s.cpu.v.toList, b.toNat ≤ 255) ∧
    (0 ≤ s.cpu.delay ∧ s.cpu.delay ≤ 255) ∧ (0 ≤ s.cpu.sound ∧ s.cpu.sound ≤ 255) ∧
    s.cpu.stack.top.val ≤ 15 ∧
    (s.cpu.stack.slots.toList.length = 16 ∧ ∀ a ∈ s.cpu.stack.slots.toList, (a : Int) ≤ min 0xFFFF c.memorySize) ∧
    s.cpu.keys.toList.length = 16 ∧
    (s.cpu.pc : Int) ≤ c.memorySize + 2 ∧
    (0 ≤ s.cpu.i ∧ s.cpu.i ≤ max 0xFFFF (c.fontStart + 75)) ∧
    ((s.memory.bytes.size : Int) = c.memorySize ∧ ∀ b ∈ s.memory.bytes, b.toNat ≤ 255) ∧
    ((s.screen.pixels.size : Int) = c.width * c.height ∧ ∀ p ∈ s.screen.pixels, p.toNat ≤ 1) := by
  have hc := Config.valid_of_ofValue hv
  have h : s.Within c := by
    rw [hs]
    exact (Session.machine_within hv hm rng ops).state
  have hbyte (b : UInt8) : b.toNat ≤ 255 := Nat.le_of_lt_succ b.toNat_lt
  refine ⟨⟨s.cpu.v.length_toList, fun b _ => hbyte b⟩, ⟨h.cpu.timers.delay_nonneg, ?_⟩, ⟨h.cpu.timers.sound_nonneg, ?_⟩,
    ?_, ⟨s.cpu.stack.slots.length_toList, ?_⟩, s.cpu.keys.length_toList, h.cpu.pc_le, ⟨h.cpu.i_nonneg, h.cpu.i_le⟩,
    ⟨h.memory, fun b _ => hbyte b⟩, ⟨?_, fun p _ => p.toNat_le⟩⟩
  · exact Int.le_of_lt_add_one h.cpu.timers.delay_lt
  · exact Int.le_of_lt_add_one h.cpu.timers.sound_lt
  · exact Nat.le_of_lt_succ s.cpu.stack.top.isLt
  · intro a ha
    obtain ⟨k, hk, rfl⟩ := Vector.mem_iff_getElem.1 (Vector.mem_toList_iff.1 ha)
    exact h.cpu.slots_le k hk
  · have hwidth := hc.width_pos
    have hheight := hc.height_pos
    have hsize : s.screen.pixels.size = c.width.toNat * c.height.toNat :=
      h.screen.size.trans Array.size_replicate
    rw [hsize]
    push_cast
    rw [Int.toNat_of_nonneg hwidth.le, Int.toNat_of_nonneg hheight.le]

/-- a configuration with room for one instruction after the font -/
def Config.small : Config := { memorySize := 82, programStart := 80, fontStart := 0, width := 1, height := 1 }

def Config.smallDocument : Value :=
  .map [(.text "memory_size", .int 82), (.text "program_start", .int 80), (.text "font_start", .int 0),
    (.text "screen", .map [(.text "width", .int 1), (.text "height", .int 1)])]

/-- the machine built from it, at its one instruction, which does nothing -/
def Machine.small : Machine Rat where
  config := .small
  state := {
    cpu := { pc := 80 }
    memory := (Memory.zeros 82).write 0 Font.bytes
    screen := .dark 1 1
    rng := .ofSeed 0 }
  clock := Clock.zero

theorem Machine.create_small : Machine.create .small = .ok Machine.small := rfl

/-- a program that sets V0 is loaded and carried out, and the processor is saved; a key that does not exist and a program
that is too large are refused; a run goes past the instruction there is and ends in a fault; the processor is put
back -/
def Session.errand : List (Session.Op Rat) :=
  [.load (.raw [0x60, 0x07]), .step, .save, .setKey 16 true, .load (.raw [0x60, 0x07, 0x12]), .tick, .run none none 3,
    .setPixel 0 0 true, .restore 0]

/-- the errand, after which V0 and the program counter are as they were saved, and the fault of the run is noted -/
theorem small_session_within_bounds :
    ∃ (e : Session Rat) (s : State), Config.ofValue Config.smallDocument = (.ok .small, []) ∧
      Machine.create .small = .ok Machine.small ∧
      e = Session.after Session.errand (.start (Machine.small.withRng (.ofSeed 1))) ∧ s = e.machine.state ∧
      e.debugger.lastFault = some (.addressOutOfBounds 83 82) ∧ s.cpu.reg 0 = 7 ∧ s.cpu.pc = 82 ∧
      (∀ b ∈ s.cpu.v.toList, b.toNat ≤ 255) ∧ (0 ≤ s.cpu.delay ∧ s.cpu.delay ≤ 255) ∧
      (0 ≤ s.cpu.sound ∧ s.cpu.sound ≤ 255) ∧ s.cpu.stack.top.val ≤ 15 ∧
      (∀ a ∈ s.cpu.stack.slots.toList, (a : Int) ≤ 82) ∧ (s.cpu.pc : Int) ≤ 84 ∧
      (0 ≤ s.cpu.i ∧ s.cpu.i ≤ 0xFFFF) ∧ (s.memory.bytes.size : Int) = 82 ∧ (s.screen.pixels.size : Int) = 1 ∧
      ∀ p ∈ s.screen.pixels, p.toNat ≤ 1 := by
  have hv : Config.ofValue Config.smallDocument = (.ok .small, []) := rfl
  obtain ⟨⟨-, hv'⟩, hdelay, hsound, htop, ⟨-, hslots⟩, -, hpc, hi, ⟨hmemory, -⟩, hpixels, hlit⟩ :=
    session_within_bounds hv Machine.create_small (.ofSeed 1) Session.errand rfl
  refine ⟨_, _, hv, Machine.create_small, rfl, rfl, ?_, ?_, ?_, hv', hdelay, hsound, htop, hslots, hpc, hi, hmemory,
    hpixels, hlit⟩
  all_goals decide +kernel

end Chip8
