/-
Two machines side by side. Two machines of different configurations are driven in the same way, and their states are
related by `R`. A `Simulation` says what one cycle has to do for them: from related states the cycles answer the same
and lead to related states, at least if the first of the two starts from a state that is `Good`. Then whatever is done
with both answers the same, fails the same and leaves related states, as long as all cycles start from good states.

- `Machine.Action`: what is done with a machine from the outside while a program runs, and `Machine.history`: what comes
  of it, answers, errors and machines.
- `State.attempted`, `Machine.attempted`: the states from which cycles are attempted.
- `Simulation.agree_beat`, `Simulation.agree_serve`: one beat; `Simulation.agree_advance`: time that passes.
- `Simulation.agree_history`: actions, one after the other.
-/
import Chip8.Proofs.Advance
import Chip8.Proofs.Outcome

namespace Chip8

open Act

/-! ## Cycles that are attempted -/

namespace State

/-- the states from which beats attempt a cycle, up to the first that fails -/
def attempted (p : Profile) : State → List Beat → List State
  | _, [] => []
  | s, b :: bs =>
    (if b = .step then [s] else []) ++
      match Effect.beat p b s with
      | .ok _ t => attempted p t bs
      | .error _ _ => []

variable {p : Profile} {s t : State}

theorem attempted_head_subset (p : Profile) (s : State) (b : Beat) (bs : List Beat) :
    s.attempted p [b] ⊆ s.attempted p (b :: bs) := by
  simp only [attempted]
  cases Effect.beat p b s with
  | ok _ t => exact List.append_subset.2 ⟨List.subset_append_left _ _, List.nil_subset _⟩
  | error f t => exact List.Subset.refl _

theorem attempted_tail_subset {b : Beat} (h : Effect.beat p b s = .ok () t) (bs : List Beat) :
    t.attempted p bs ⊆ s.attempted p (b :: bs) := by
  simp only [attempted, h]
  exact List.subset_append_right _ _

end State

namespace Machine

/-- what is done with a machine while a program runs -/
inductive Action (κ : Type) where
  | step
  | tick
  | setKey (key : Int) (pressed : Bool)
  | advance (elapsed : κ)

inductive Answer where
  /-- the instruction that was carried out -/
  | carriedOut (ins : Instruction)
  | done
  /-- how many instructions were carried out -/
  | count (n : Nat)
  deriving DecidableEq, Repr

variable {κ : Type} [Credit κ]

def Action.run : Action κ → MachineM κ Answer
  | .step => do return .carriedOut (← Machine.step)
  | .tick => do
    Machine.tick
    return .done
  | .setKey key pressed => do
    Machine.act (Effect.setKey key pressed)
    return .done
  | .advance elapsed => do return .count (← Machine.advance elapsed)

/-- what comes of actions, one after the other; an action that fails leaves the machine as far as it came -/
def history (m : Machine κ) : List (Action κ) → List (EStateM.Result Error (Machine κ) Answer)
  | [] => []
  | a :: as => a.run m :: history (left a.run m) as

def Action.attempted (m : Machine κ) : Action κ → List State
  | .step => [m.state]
  | .advance elapsed => m.state.attempted m.config.profile (m.due elapsed)
  | .tick | .setKey _ _ => []

/-- the states from which actions attempt cycles, one after the other -/
def attempted (m : Machine κ) : List (Action κ) → List State
  | [] => []
  | a :: as => a.attempted m ++ attempted (left a.run m) as

/-- machines of two configurations with related states and equal credit -/
structure Paired {κ : Type} (c d : Config) (R : State → State → Prop) (m n : Machine κ) : Prop where
  first : m.config = c
  second : n.config = d
  state : R m.state n.state
  clock : m.clock = n.clock

/-- a beat that is done acts on the state as it asks for -/
theorem beat_of_serve {m t : Machine κ} {b : Beat} (h : serve b m = .ok () t) :
    t.config = m.config ∧ Effect.beat m.config.profile b m.state = .ok () t.state := by
  rw [serve_apply] at h
  cases hb : Effect.beat m.config.profile b m.state with
  | ok _ s =>
    rw [hb] at h
    cases h
    exact ⟨rfl, rfl⟩
  | error f s =>
    rw [hb] at h
    cases h

/-- beats that are all done leave the state that they ask for -/
theorem beats_of_forM_serve {bs : List Beat} {t : Machine κ} (h : forM bs serve m = .ok () t) :
    forM bs (Effect.beat m.config.profile) m.state = .ok () t.state := by
  induction bs generalizing m with
  | nil =>
    cases h
    rfl
  | cons b bs ih =>
    rw [List.forM_cons] at h ⊢
    obtain ⟨⟨⟩, u, hb, hrest⟩ := bind_eq_ok.1 h
    obtain ⟨hconfig, hbeat⟩ := beat_of_serve hb
    have hlater := ih hrest
    rw [hconfig] at hlater
    exact bind_eq_ok.2 ⟨(), u.state, hbeat, hlater⟩

/-- letting time pass without an error is to do all beats that are due, and answers with how many of them were
instructions -/
theorem beats_of_advance {elapsed : κ} {count : Nat} {t : Machine κ} (h : advance elapsed m = .ok count t) :
    forM (m.due elapsed) (Effect.beat m.config.profile) m.state = .ok () t.state ∧
      count = (m.due elapsed).count .step := by
  rw [advance_cases] at h
  split_ifs at h
  cases hcpu : (Credit.ofInt? m.config.cpuHz : Option κ) with
  | none =>
    rw [hcpu] at h
    cases h
  | some cpu =>
    cases htimer : (Credit.ofInt? m.config.timerHz : Option κ) with
    | none =>
      rw [hcpu, htimer] at h
      cases h
    | some timer =>
      rw [hcpu, htimer] at h
      obtain ⟨⟨⟩, u, hserve, hcount⟩ := bind_eq_ok.1 h
      cases hcount
      have hbeats := beats_of_forM_serve hserve
      exact ⟨hbeats, rfl⟩

end Machine

/-! ## Simulations -/

/-- two configurations with the same rates under which cycles answer the same from related states and lead to related
states, if the first of these is good; related states have the same processor, and any other one can be put in -/
structure Simulation (c d : Config) (R : State → State → Prop) (Good : State → Prop) : Prop where
  cpuHz : c.cpuHz = d.cpuHz
  timerHz : c.timerHz = d.timerHz
  cpu : ∀ {s t : State}, R s t → s.cpu = t.cpu
  withCpu : ∀ {s t : State} (cpu : Cpu), R s t → R (s.withCpu cpu) (t.withCpu cpu)
  step : ∀ {s t : State}, R s t → Good s → Agree R (Effect.step c.profile s) (Effect.step d.profile t)

namespace Simulation

open Machine

variable {c d : Config} {R : State → State → Prop} {Good : State → Prop} {s t : State}

theorem agree_tick (sim : Simulation c d R Good) (h : R s t) : Agree R (Effect.tick s) (Effect.tick t) := by
  have htick : R (s.withCpu s.cpu.tick) (t.withCpu t.cpu.tick) := by
    rw [← sim.cpu h]
    exact sim.withCpu _ h
  exact .ok () htick

theorem agree_setKey (sim : Simulation c d R Good) (h : R s t) (key : Int) (pressed : Bool) :
    Agree R (Effect.setKey key pressed s) (Effect.setKey key pressed t) := by
  unfold Effect.setKey
  simp only [bind_apply, get_apply, ← sim.cpu h]
  cases s.cpu.setKey key pressed with
  | ok cpu => exact .ok () (sim.withCpu cpu h)
  | error f => exact .error f h

theorem agree_beat (sim : Simulation c d R Good) (h : R s t) (b : Beat)
    (hgood : ∀ u ∈ s.attempted c.profile [b], Good u) :
    Agree R (Effect.beat c.profile b s) (Effect.beat d.profile b t) := by
  cases b with
  | tick => exact sim.agree_tick h
  | step =>
    have hs : Good s := hgood s List.mem_cons_self
    exact (sim.step h hs).bind fun _ _ _ _ huv => .ok () huv

variable {κ : Type} {m n : Machine κ}

theorem act (h : Paired c d R m n) {α : Type} {a b : Effect α} (hab : Agree R (a m.state) (b n.state)) :
    Agree (Paired c d R) (Machine.act a m) (Machine.act b n) := by
  unfold Machine.act
  generalize a m.state = result, b n.state = result' at hab
  cases hab with
  | ok r hs => exact .ok r ⟨h.first, h.second, hs, h.clock⟩
  | error f hs => exact .error (Error.fault f) ⟨h.first, h.second, hs, h.clock⟩

theorem agree_step (sim : Simulation c d R Good) (h : Paired c d R m n) (hgood : Good m.state) :
    Agree (Paired c d R) (Machine.step m) (Machine.step n) := by
  have hstep := sim.step h.state hgood
  rw [← h.first, ← h.second] at hstep
  exact act h hstep

variable [Credit κ]

theorem agree_serve (sim : Simulation c d R Good) (h : Paired c d R m n) (b : Beat)
    (hgood : ∀ u ∈ m.state.attempted c.profile [b], Good u) : Agree (Paired c d R) (serve b m) (serve b n) := by
  have hbeat := sim.agree_beat h.state b hgood
  rw [serve_apply, serve_apply, h.first, h.second, ← h.clock]
  generalize Effect.beat c.profile b m.state = result, Effect.beat d.profile b n.state = result' at hbeat
  cases hbeat with
  | ok _ hs => exact .ok () ⟨rfl, rfl, hs, rfl⟩
  | error f hs => exact .error (Error.fault f) ⟨rfl, rfl, hs, rfl⟩

/-- beats done one after the other, all of whose cycles start from good states -/
theorem agree_forM_serve (sim : Simulation c d R Good) (h : Paired c d R m n) (bs : List Beat)
    (hgood : ∀ u ∈ m.state.attempted c.profile bs, Good u) :
    Agree (Paired c d R) (forM bs serve m) (forM bs serve n) := by
  induction bs generalizing m n with
  | nil => exact .ok () h
  | cons b bs ih =>
    have hhead := State.attempted_head_subset c.profile m.state b bs
    simp only [List.forM_cons]
    refine (sim.agree_serve h b fun u hu => hgood u (hhead hu)).bind fun _ m' n' hm' h' => ih h' fun u hu => ?_
    obtain ⟨-, hbeat⟩ := beat_of_serve hm'
    rw [h.first] at hbeat
    exact hgood u (State.attempted_tail_subset hbeat bs hu)

/-- time that passes, in which all cycles start from good states -/
theorem agree_advance (sim : Simulation c d R Good) (h : Paired c d R m n) (elapsed : κ)
    (hgood : ∀ u ∈ m.state.attempted c.profile (m.due elapsed), Good u) :
    Agree (Paired c d R) (Machine.advance elapsed m) (Machine.advance elapsed n) := by
  have hdue : n.due elapsed = m.due elapsed := by
    unfold due
    rw [h.first, h.second, h.clock, sim.cpuHz, sim.timerHz]
  rw [advance_cases elapsed m, advance_cases elapsed n, hdue, h.first, h.second, ← sim.cpuHz, ← sim.timerHz, ← h.clock]
  split_ifs
  · exact .error _ h
  cases (Credit.ofInt? c.cpuHz : Option κ) with
  | none => exact .error _ h
  | some cpu =>
    cases (Credit.ofInt? c.timerHz : Option κ) with
    | none => exact .error _ ⟨rfl, rfl, h.state, rfl⟩
    | some timer =>
      let clock := m.clock.credited ⟨cpu, timer⟩ elapsed
      have hpaid : Paired c d R ⟨c, m.state, clock⟩ ⟨d, n.state, clock⟩ := ⟨rfl, rfl, h.state, rfl⟩
      exact (sim.agree_forM_serve hpaid (m.due elapsed) hgood).bind fun _ _ _ _ h' => .ok _ h'

/-- an action all of whose cycles start from good states -/
theorem agree_run (sim : Simulation c d R Good) (h : Paired c d R m n) (a : Action κ)
    (hgood : ∀ u ∈ a.attempted m, Good u) : Agree (Paired c d R) (a.run m) (a.run n) := by
  cases a with
  | step => exact (sim.agree_step h (hgood _ List.mem_cons_self)).bind fun _ _ _ _ h' => .ok _ h'
  | tick => exact (act h (sim.agree_tick h.state)).bind fun _ _ _ _ h' => .ok _ h'
  | setKey key pressed => exact (act h (sim.agree_setKey h.state key pressed)).bind fun _ _ _ _ h' => .ok _ h'
  | advance elapsed =>
    have hattempted : ∀ u ∈ m.state.attempted c.profile (m.due elapsed), Good u := by
      rw [← h.first]
      exact hgood
    exact (sim.agree_advance h elapsed hattempted).bind fun _ _ _ _ h' => .ok _ h'

/-- **Actions on machines side by side** have the same answers and errors, and leave related machines after each of
them, as long as all cycles start from good states. -/
theorem agree_history (sim : Simulation c d R Good) (h : Paired c d R m n) (as : List (Action κ))
    (hgood : ∀ u ∈ m.attempted as, Good u) : List.Forall₂ (Agree (Paired c d R)) (m.history as) (n.history as) := by
  induction as generalizing m n with
  | nil => exact .nil
  | cons a as ih =>
    have hfirst := sim.agree_run h a fun u hu => hgood u (List.mem_append_left _ hu)
    exact .cons hfirst (ih hfirst.left fun u hu => hgood u (List.mem_append_right _ hu))

/-- every machine goes on as itself -/
theorem refl (c : Config) : Simulation c c Eq fun _ => True where
  cpuHz := rfl
  timerHz := rfl
  cpu h := congrArg State.cpu h
  withCpu cpu h := congrArg (State.withCpu · cpu) h
  step h _ := h ▸ Agree.refl _

end Simulation

/-- if all of some results are successes, so are all results that agree with them one by one -/
theorem Act.Agree.all_ok {ε σ α : Type} {R : σ → σ → Prop} {rs rs' : List (EStateM.Result ε σ α)}
    (h : List.Forall₂ (Agree R) rs rs') (hok : ∀ r ∈ rs, ∃ x t, r = .ok x t) : ∀ r ∈ rs', ∃ x t, r = .ok x t := by
  induction h with
  | nil => simp
  | cons hfirst _ ih =>
    intro r hr
    rcases List.mem_cons.1 hr with rfl | hr
    · obtain ⟨x, t, rfl⟩ := hok _ List.mem_cons_self
      cases hfirst with
      | ok _ _ => exact ⟨_, _, rfl⟩
    · exact ih (fun q hq => hok q (List.mem_cons_of_mem _ hq)) r hr

/-- an action leaves the configuration as it is -/
theorem Machine.Action.config_run {κ : Type} [Credit κ] (a : Action κ) (m : Machine κ) :
    (left a.run m).config = m.config := by
  have hself : Paired m.config m.config Eq m m := ⟨rfl, rfl, rfl, rfl⟩
  exact ((Simulation.refl m.config).agree_run hself a fun _ _ => trivial).left.first

end Chip8
