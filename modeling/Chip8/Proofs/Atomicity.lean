/-
Failing cycles. A cycle that fails leaves everything as it was but the program counter, which the fetch may have moved.

`Cpu.WellFormed` is what a processor keeps to: timers hold bytes. Registers and the stack cannot hold anything else.
From such a processor every fault is one that a program can bring about, and cycles lead to such processors again
(`WellFormed.step`), so a debugger's run never meets a fault that it does not handle (`runFrom_handled`).

- `step_error_atomic`: both together.
-/
import Chip8.Debugger.Basic
import Chip8.Proofs.Outcome

namespace Chip8

open Effect

/-- the timers hold bytes -/
structure Cpu.WellFormed (c : Cpu) : Prop where
  delay_nonneg : 0 ≤ c.delay
  delay_lt : c.delay < 256
  sound_nonneg : 0 ≤ c.sound
  sound_lt : c.sound < 256

namespace Cpu.WellFormed

theorem zero : Cpu.WellFormed {} := ⟨by decide, by decide, by decide, by decide⟩

/-- a timer set from a register holds a byte, and no instruction sets a timer from anything else -/
theorem outcome (p : Profile) {s : State} (h : s.cpu.WellFormed) (ins : Instruction) :
    (ins.outcome p s).cpu.WellFormed := by
  have hbyte (x : Fin 16) : (s.cpu.reg x).toNat < 256 := (s.cpu.reg x).toNat_lt
  refine ⟨?_, ?_, ?_, ?_⟩
  · rw [ins.outcome_delay]
    split
    · exact Int.natCast_nonneg _
    · exact h.delay_nonneg
  · rw [ins.outcome_delay]
    split
    · exact Int.ofNat_lt.2 (hbyte _)
    · exact h.delay_lt
  · rw [ins.outcome_sound]
    split
    · exact Int.natCast_nonneg _
    · exact h.sound_nonneg
  · rw [ins.outcome_sound]
    split
    · exact Int.ofNat_lt.2 (hbyte _)
    · exact h.sound_lt

theorem fetched {s : State} (h : s.cpu.WellFormed) : s.fetched.cpu.WellFormed :=
  ⟨h.delay_nonneg, h.delay_lt, h.sound_nonneg, h.sound_lt⟩

theorem halted {s : State} (h : s.cpu.WellFormed) : s.halted.cpu.WellFormed := by
  unfold State.halted
  split_ifs
  · exact h.fetched
  · exact h

theorem step (p : Profile) : Act.Keeps (fun s : State => s.cpu.WellFormed) (Effect.step p) := by
  intro s hs
  unfold Act.left
  rw [step_eq]
  cases s.obstacle? p with
  | some f => exact hs.halted
  | none => exact hs.fetched.outcome p s.instruction

end Cpu.WellFormed

/-! ## Faults of the program -/

theorem byProgram_of_window? {m : Memory} {i : Int} {length : Nat} {f : Fault} (h : m.window? i length = some f) :
    f.byProgram = true := by
  unfold Memory.window? at h
  split_ifs at h
  · cases h; rfl
  · cases h; rfl

theorem byProgram_of_target? {m : Memory} {target : Nat} {f : Fault} (h : m.target? target = some f) :
    f.byProgram = true := by
  unfold Memory.target? at h
  split_ifs at h
  cases h
  rfl

/-- from a well-formed processor only the program can bring a fault about -/
theorem byProgram_of_obstacle? {p : Profile} {s : State} {ins : Instruction} {f : Fault} (hs : s.cpu.WellFormed)
    (h : ins.obstacle? p s = some f) : f.byProgram = true := by
  cases ins with
  | ret =>
    simp only [Instruction.obstacle?] at h
    split_ifs at h
    cases h
    rfl
  | jump addr => exact byProgram_of_target? h
  | call addr =>
    rcases Option.or_eq_some_iff.1 h with h | ⟨-, h⟩
    · exact byProgram_of_target? h
    · split_ifs at h
      cases h
      rfl
  | jumpOffset addr => exact byProgram_of_target? h
  | draw x y n => exact byProgram_of_window? h
  | decimal x => exact byProgram_of_window? h
  | store x => exact byProgram_of_window? h
  | restore x => exact byProgram_of_window? h
  | skipKey x =>
    simp only [Instruction.obstacle?] at h
    split_ifs at h
    cases h
    rfl
  | skipNoKey x =>
    simp only [Instruction.obstacle?] at h
    split_ifs at h
    cases h
    rfl
  | readDelay x =>
    -- the one fault that is not the program's needs a timer that is no byte
    simp only [Instruction.obstacle?, if_pos (And.intro hs.delay_nonneg hs.delay_lt)] at h
    cases h
  | unknown word => cases h; rfl
  | _ => cases h

theorem byProgram_of_step {p : Profile} {s t : State} {f : Fault} (hs : s.cpu.WellFormed)
    (h : step p s = .error f t) : f.byProgram = true := by
  obtain ⟨hf, -⟩ := step_eq_error.1 h
  unfold State.obstacle? at hf
  split_ifs at hf
  · exact byProgram_of_obstacle? hs.fetched hf
  · cases hf
    rfl

/-! ## Runs of a debugger -/

namespace Debugger

variable {κ : Type}

/-- the debugger with another state and record -/
def withState (d : Debugger κ) (s : State) (trace : List (Nat × Instruction)) : Debugger κ :=
  { d with machine := { d.machine with state := s }, trace }

theorem step_eq (d : Debugger κ) :
    d.step = match Effect.step d.machine.config.profile d.machine.state with
      | .ok ins s => .ok ins (d.withState s (((d.cpu.pc, ins) :: d.trace).take traceLimit))
      | .error f s => .error f (d.withState s d.trace) := rfl

/-- how a run goes on that has not used up its fuel: it ends before the next instruction, with it, after it, or later -/
theorem runFrom_cases {limit stopDuring : Option Nat} {fuel executed : Nat} {d : Debugger κ} {stop : Stop κ}
    (h : runFrom limit stopDuring (fuel + 1) executed d = some stop) :
    (limit.any (· ≤ executed) = true ∧ stop = ⟨.stepLimit, [], d⟩) ∨
    (limit.any (· ≤ executed) = false ∧ (executed ≠ 0 ∧ d.breaksAt = true) ∧
      stop = ⟨.breakpoint, [.breakpointHit d.cpu.pc], d⟩) ∨
    (limit.any (· ≤ executed) = false ∧ ¬ (executed ≠ 0 ∧ d.breaksAt = true) ∧
      ((∃ f after, d.step = .error f after ∧ f.byProgram = true ∧
          stop = ⟨.fault, [.faulted d.cpu.pc f], { after with lastFault := some f }⟩) ∨
        (∃ f after, d.step = .error f after ∧ f.byProgram = false ∧ stop = ⟨.unhandled f, [], after⟩) ∨
        ∃ ins after, d.step = .ok ins after ∧
          ((after.breaksAfter d.cpu = true ∧ stop = ⟨.breakpoint, [.breakpointHit after.cpu.pc], after⟩) ∨
            (after.breaksAfter d.cpu = false ∧ stopDuring = some (executed + 1) ∧ stop = ⟨.stopped, [], after⟩) ∨
            (after.breaksAfter d.cpu = false ∧ stopDuring ≠ some (executed + 1) ∧
              runFrom limit stopDuring fuel (executed + 1) after = some stop)))) := by
  simp only [runFrom] at h
  by_cases hlimit : limit.any (· ≤ executed) = true
  · rw [if_pos hlimit] at h
    exact .inl ⟨hlimit, (Option.some.inj h).symm⟩
  rw [if_neg hlimit] at h
  have hlimit := eq_false_of_ne_true hlimit
  by_cases hbreak : executed ≠ 0 ∧ d.breaksAt = true
  · rw [if_pos hbreak] at h
    exact .inr (.inl ⟨hlimit, hbreak, (Option.some.inj h).symm⟩)
  rw [if_neg hbreak] at h
  refine .inr (.inr ⟨hlimit, hbreak, ?_⟩)
  cases hstep : d.step with
  | error f after =>
    simp only [hstep] at h
    by_cases hf : f.byProgram = true
    · rw [if_pos hf] at h
      exact .inl ⟨f, after, rfl, hf, (Option.some.inj h).symm⟩
    · rw [if_neg hf] at h
      exact .inr (.inl ⟨f, after, rfl, eq_false_of_ne_true hf, (Option.some.inj h).symm⟩)
  | ok ins after =>
    simp only [hstep] at h
    refine .inr (.inr ⟨ins, after, rfl, ?_⟩)
    by_cases hafter : after.breaksAfter d.cpu = true
    · rw [if_pos hafter] at h
      exact .inl ⟨hafter, (Option.some.inj h).symm⟩
    rw [if_neg hafter] at h
    have hafter := eq_false_of_ne_true hafter
    by_cases hstop : stopDuring = some (executed + 1)
    · rw [if_pos hstop] at h
      exact .inr (.inl ⟨hafter, hstop, (Option.some.inj h).symm⟩)
    · rw [if_neg hstop] at h
      exact .inr (.inr ⟨hafter, hstop, h⟩)

/-- what cycles keep, the debugger keeps -/
theorem keeps_step {c : Config} {P : State → Prop} (hP : Act.Keeps P (Effect.step c.profile)) :
    Act.Keeps (fun d : Debugger κ => d.machine.config = c ∧ P d.machine.state) step := by
  rintro d ⟨rfl, hd⟩
  unfold Act.left
  rw [step_eq]
  cases h : Effect.step d.machine.config.profile d.machine.state with
  | ok ins s => exact ⟨rfl, hP.ok hd h⟩
  | error f s => exact ⟨rfl, hP.error hd h⟩

theorem byProgram_of_debuggerStep {d after : Debugger κ} {f : Fault} (hd : d.cpu.WellFormed)
    (h : d.step = .error f after) : f.byProgram = true := by
  rw [step_eq] at h
  cases hr : Effect.step d.machine.config.profile d.machine.state with
  | ok ins s =>
    rw [hr] at h
    cases h
  | error g s =>
    rw [hr] at h
    cases h
    exact byProgram_of_step hd hr

/-- no run that starts with a well-formed processor ends in a fault that it does not handle. The induction is on the
instructions left to carry out; every one of them leads to a well-formed processor again -/
theorem runFrom_handled (limit stopDuring : Option Nat) (fuel executed : Nat) (d : Debugger κ) (hd : d.cpu.WellFormed)
    {stop : Stop κ} (h : runFrom limit stopDuring fuel executed d = some stop) (f : Fault) :
    stop.reason ≠ .unhandled f := by
  induction fuel generalizing executed d with
  | zero => cases h
  | succ fuel ih =>
    rcases runFrom_cases h with
      ⟨-, rfl⟩ | ⟨-, -, rfl⟩ | ⟨-, -, ⟨g, after, -, -, rfl⟩ | ⟨g, after, hstep, hg, rfl⟩ | hok⟩
    · simp
    · simp
    · simp
    · rw [byProgram_of_debuggerStep hd hstep] at hg
      cases hg
    · rcases hok with ⟨ins, after, hstep, ⟨-, rfl⟩ | ⟨-, -, rfl⟩ | ⟨-, -, hrest⟩⟩
      · simp
      · simp
      · exact ih _ after ((keeps_step (Cpu.WellFormed.step _)).ok ⟨rfl, hd⟩ hstep).2 hrest

end Debugger

/-! ## Atomicity -/

/-- **A failing cycle changes nothing but the program counter.** Whatever the state, the dialect and the word at the
program counter: if a cycle fails, then memory, screen, random generator, count and all of the processor but the program
counter are as they were; the program counter is where it was if the fetch failed, and two past that if the instruction
did. The fault is one that a program can bring about, and no debugger's run from such a state lets a fault out. -/
theorem step_error_atomic (p : Profile) (s : State) (hs : s.cpu.WellFormed) :
    (∀ f t, step p s = .error f t →
      ((∃ g u, fetch s = .error g u) → t = s) ∧
      ((∃ w u, fetch s = .ok w u) → t = { s with cpu := { s.cpu with pc := s.cpu.pc + 2 } }) ∧
      f.byProgram = true) ∧
    ∀ (κ : Type) (d : Debugger κ) (limit stopDuring : Option Nat) (fuel : Nat) (stop : Debugger.Stop κ),
      d.machine.state = s → d.run limit stopDuring fuel = some stop → ∀ f, stop.reason ≠ .unhandled f := by
  constructor
  · intro f t h
    obtain ⟨-, rfl⟩ := step_eq_error.1 h
    refine ⟨?_, ?_, byProgram_of_step hs h⟩
    · rintro ⟨g, u, hg⟩
      rw [fetch_apply] at hg
      unfold State.halted
      split_ifs at hg ⊢
      rfl
    · rintro ⟨w, u, hw⟩
      rw [fetch_apply] at hw
      unfold State.halted
      split_ifs at hw ⊢
      rfl
  · intro κ d limit stopDuring fuel stop hd h
    refine Debugger.runFrom_handled limit stopDuring fuel 0 { d with lastFault := none } ?_ h
    rw [← hd] at hs
    exact hs

/-- a return with no call open, at the start of a memory of two bytes -/
def strayReturn : State :=
  { memory := ⟨#[0x00, 0xEE]⟩, screen := .dark 8 8, rng := .ofSeed 0 }

theorem strayReturn_atomic :
    ∃ t, step {} strayReturn = .error .stackUnderflow t ∧
      t = { strayReturn with cpu := { strayReturn.cpu with pc := 2 } } ∧ Fault.stackUnderflow.byProgram = true := by
  have h : step {} strayReturn = .error .stackUnderflow strayReturn.halted := by
    rw [step_eq]
    rfl
  obtain ⟨-, ht, hf⟩ := (step_error_atomic {} strayReturn Cpu.WellFormed.zero).1 _ _ h
  exact ⟨_, h, ht ⟨_, _, by rw [fetch_apply]; rfl⟩, hf⟩

end Chip8
