/-
Chance. The random generator is the one part of a machine that is not set back when it is switched on, and the one part
that its programs cannot foresee. Machines that are equal but for the generator are `Alike`; what is done with both of
them answers the same and leaves them alike, unless an instruction is carried out that depends on chance: a random byte
under a mask that lets something through.

- `Instruction.dependsOnChance`: which instructions those are; `State.carried`, `Machine.carried`: the instructions that
  beats carry out, and those that actions do.
- `Effect.agree_step`: one cycle.
- `Machine.agree_history`: actions, one after the other.
-/
import Chip8.Proofs.Bounds
import Chip8.Proofs.Simulation

namespace Chip8

open Act

/-! ## States -/

/-- what the instruction leads to depends on the random generator -/
def Instruction.dependsOnChance : Instruction → Bool
  | random _ mask => mask != 0
  | _ => false

namespace State

/-- the states are equal but for the random generator -/
structure Alike (s t : State) : Prop where
  cpu : s.cpu = t.cpu
  memory : s.memory = t.memory
  screen : s.screen = t.screen
  cycles : s.cycles = t.cycles

variable {p : Profile} {s t : State}

/-- states that are alike are one state with two generators -/
theorem Alike.exists_rng (h : s.Alike t) : ∃ rng, t = { s with rng } := by
  obtain ⟨hcpu, hmemory, hscreen, hcycles⟩ := h
  refine ⟨t.rng, ?_⟩
  rw [hcpu, hmemory, hscreen, hcycles]

theorem Alike.withCpu (h : s.Alike t) (f : Cpu → Cpu) : (s.withCpu (f s.cpu)).Alike (t.withCpu (f t.cpu)) :=
  ⟨congrArg f h.cpu, h.memory, h.screen, h.cycles⟩

theorem Alike.instruction (h : s.Alike t) : s.instruction = t.instruction := by
  unfold State.instruction word
  rw [h.cpu, h.memory]

/-- nothing that stands against an instruction has to do with the generator -/
theorem Alike.obstacle (h : s.Alike t) (ins : Instruction) : ins.obstacle? p s = ins.obstacle? p t := by
  obtain ⟨rng, rfl⟩ := h.exists_rng
  cases ins <;> rfl

/-- an instruction leads from states that are alike to states that are alike. The one that draws a byte leaves different
generators behind, and nothing of the byte if its mask is zero -/
theorem Alike.outcome (h : s.Alike t) (ins : Instruction) (hins : ins.dependsOnChance = false) :
    (ins.outcome p s).Alike (ins.outcome p t) := by
  obtain ⟨rng, rfl⟩ := h.exists_rng
  cases ins with
  | random x mask =>
    have hmask : mask = 0 := by simpa [Instruction.dependsOnChance] using hins
    refine ⟨?_, rfl, rfl, rfl⟩
    simp only [Instruction.outcome, hmask, UInt8.and_zero]
  | _ => exact ⟨rfl, rfl, rfl, rfl⟩

theorem Alike.fetched (h : s.Alike t) : s.fetched.Alike t.fetched := h.withCpu fun cpu => { cpu with pc := cpu.pc + 2 }

theorem Alike.halted (h : s.Alike t) : s.halted.Alike t.halted := by
  unfold State.halted
  rw [h.cpu, h.memory]
  split_ifs
  · exact h.fetched
  · exact h

theorem Alike.next (h : s.Alike t) (hins : s.instruction.dependsOnChance = false) : (s.next p).Alike (t.next p) := by
  have houtcome := h.fetched.outcome (p := p) s.instruction hins
  unfold State.next
  rw [← h.instruction]
  exact ⟨houtcome.cpu, houtcome.memory, houtcome.screen, congrArg (· + 1) houtcome.cycles⟩

/-- the instructions that beats carry out, up to the first that fails -/
def carried (p : Profile) : State → List Beat → List Instruction
  | _, [] => []
  | s, .tick :: bs => carried p (left Effect.tick s) bs
  | s, .step :: bs =>
    match Effect.step p s with
    | .ok ins t => ins :: carried p t bs
    | .error _ _ => []

theorem carried_head_subset (p : Profile) (s : State) (b : Beat) (bs : List Beat) :
    s.carried p [b] ⊆ s.carried p (b :: bs) := by
  cases b with
  | tick => exact List.nil_subset _
  | step =>
    simp only [carried]
    cases Effect.step p s with
    | ok ins t => exact List.cons_subset_cons ins (List.nil_subset _)
    | error f t => exact List.Subset.refl _

theorem carried_of_beat {b : Beat} (h : Effect.beat p b s = .ok () t) (bs : List Beat) :
    s.carried p (b :: bs) = s.carried p [b] ++ t.carried p bs := by
  cases b with
  | tick =>
    cases h
    rfl
  | step =>
    obtain ⟨ins, u, hstep, hpure⟩ := bind_eq_ok.1 h
    cases hpure
    simp only [carried, hstep]
    rfl

/-- what a cycle that beats attempt carries out is among what the beats carry out -/
theorem carried_of_attempted {bs : List Beat} {u : State} (hu : u ∈ s.attempted p bs) :
    u.carried p [.step] ⊆ s.carried p bs := by
  induction bs generalizing s with
  | nil => cases hu
  | cons b bs ih =>
    rcases List.mem_append.1 hu with hfirst | hrest
    · obtain ⟨rfl, rfl⟩ : b = .step ∧ u = s := by simpa using hfirst
      exact carried_head_subset p u .step bs
    · cases hb : Effect.beat p b s with
      | ok _ t =>
        rw [hb] at hrest
        rw [carried_of_beat hb]
        exact List.Subset.trans (ih hrest) (List.subset_append_right _ _)
      | error f t =>
        rw [hb] at hrest
        cases hrest

/-- beats that are all done carry out as many instructions as there are instructions among them -/
theorem length_carried {bs : List Beat} (h : forM bs (Effect.beat p) s = .ok () t) :
    (s.carried p bs).length = bs.count .step := by
  induction bs generalizing s with
  | nil => rfl
  | cons b bs ih =>
    rw [List.forM_cons] at h
    obtain ⟨⟨⟩, u, hb, hrest⟩ := bind_eq_ok.1 h
    rw [carried_of_beat hb, List.length_append, ih hrest]
    cases b with
    | tick => rw [List.count_cons_of_ne (by decide)]; exact Nat.zero_add _
    | step =>
      obtain ⟨ins, v, hstep, -⟩ := bind_eq_ok.1 hb
      rw [List.count_cons_self]
      simp only [carried, hstep, List.length_singleton]
      omega

end State

/-! ## Cycles and beats -/

namespace Effect

variable {p : Profile} {s t : State}

/-- a cycle that carries nothing out that depends on chance -/
theorem agree_step (h : s.Alike t) (hquiet : ∀ ins ∈ s.carried p [.step], ins.dependsOnChance = false) :
    Agree State.Alike (step p s) (step p t) := by
  have hobstacle : s.obstacle? p = t.obstacle? p := by
    unfold State.obstacle?
    rw [h.cpu, h.memory, h.instruction, h.fetched.obstacle]
  have hs := step_eq p s
  rw [step_eq p t, ← hobstacle, ← h.instruction, hs]
  cases hclear : s.obstacle? p with
  | some f => exact .error f h.halted
  | none =>
    rw [hclear] at hs
    refine .ok _ (h.next (hquiet _ ?_))
    simp only [State.carried, hs, List.mem_singleton]

end Effect

/-! ## Machines -/

namespace Machine

variable {κ : Type}

/-- the machines are equal but for the random generator -/
structure Alike (m n : Machine κ) : Prop where
  config : m.config = n.config
  state : m.state.Alike n.state
  clock : m.clock = n.clock

variable {m n : Machine κ}

/-- machines that are alike go on alike as long as no cycle carries anything out that depends on chance -/
theorem simulation_alike (c : Config) :
    Simulation c c State.Alike fun s => ∀ ins ∈ s.carried c.profile [.step], ins.dependsOnChance = false where
  cpuHz := rfl
  timerHz := rfl
  cpu h := h.cpu
  withCpu cpu h := h.withCpu fun _ => cpu
  step h hquiet := Effect.agree_step h hquiet

theorem Alike.paired (h : m.Alike n) : Paired m.config m.config State.Alike m n :=
  ⟨rfl, h.config.symm, h.state, h.clock⟩

theorem Paired.alike {c : Config} (h : Paired c c State.Alike m n) : m.Alike n :=
  ⟨h.first.trans h.second.symm, h.state, h.clock⟩

variable [Credit κ]

def Action.carried (m : Machine κ) : Action κ → List Instruction
  | .step => m.state.carried m.config.profile [.step]
  | .advance elapsed => m.state.carried m.config.profile (m.due elapsed)
  | .tick | .setKey _ _ => []

/-- the instructions that actions carry out, one after the other -/
def carried (m : Machine κ) : List (Action κ) → List Instruction
  | [] => []
  | a :: as => a.carried m ++ carried (left a.run m) as

/-- what a cycle that an action attempts carries out is among what the action carries out -/
theorem Action.carried_of_attempted {a : Action κ} {u : State} (hu : u ∈ a.attempted m) :
    u.carried m.config.profile [.step] ⊆ a.carried m := by
  cases a with
  | step =>
    rw [List.mem_singleton.1 hu]
    exact List.Subset.refl _
  | advance elapsed => exact State.carried_of_attempted hu
  | tick => cases hu
  | setKey key pressed => cases hu

theorem carried_of_attempted {as : List (Action κ)} {u : State} (hu : u ∈ m.attempted as) :
    u.carried m.config.profile [.step] ⊆ m.carried as := by
  induction as generalizing m with
  | nil => cases hu
  | cons a as ih =>
    rcases List.mem_append.1 hu with hfirst | hrest
    · exact List.Subset.trans (Action.carried_of_attempted hfirst) (List.subset_append_left _ _)
    · have hlater := ih hrest
      rw [a.config_run] at hlater
      exact List.Subset.trans hlater (List.subset_append_right _ _)

/-- actions on machines that are alike have the same answers and errors, and leave machines that are alike after each
of them -/
theorem agree_history (h : m.Alike n) (as : List (Action κ))
    (hquiet : ∀ ins ∈ m.carried as, ins.dependsOnChance = false) :
    List.Forall₂ (Agree Alike) (m.history as) (n.history as) := by
  have hpaired := (simulation_alike m.config).agree_history h.paired as fun u hu ins hins =>
    hquiet ins (carried_of_attempted hu hins)
  exact hpaired.imp fun _ _ hagree => hagree.mono Paired.alike

end Machine

end Chip8
