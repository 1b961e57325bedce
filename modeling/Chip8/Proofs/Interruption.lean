/-
An instruction that fails while time passes. The beats that letting time pass takes on are those that the credit pays
for, so the clock alone decides which they are and in which order. When an instruction among them fails, the credit for
the beats up to and with this one is gone, and what is left pays for the beats after it: no time need pass for them to
be taken on, none is lost and none is done again.

- `Clock.Pays`: the beats that credit pays for, one after the other, until it is used up.
- `Machine.undertaken`: the beats that letting time pass takes on, and `advance_undertaken`: it does these and nothing
  else.
- `advance_resumes`: what an interruption leaves.
-/
import Chip8.Proofs.Advance
import Chip8.Proofs.Outcome

namespace Chip8

open Act

/-! ## What credit pays for -/

namespace Clock

/-- the credit pays for these beats, one after the other in this order, and for no other one after them -/
inductive Pays {κ : Type} [Credit κ] (rates : Rates κ) : Clock κ → List Beat → Prop
  | nothing {c : Clock κ} (h : c.next? rates = none) : Pays rates c []
  | beat {c rest : Clock κ} {b : Beat} {bs : List Beat} (h : c.next? rates = some (b, rest))
      (hrest : Pays rates rest bs) : Pays rates c (b :: bs)

section Paying

variable {κ : Type} [Credit κ] {rates : Rates κ} {c : Clock κ} {bs bs' : List Beat}

theorem Pays.unique (h : c.Pays rates bs) (h' : c.Pays rates bs') : bs = bs' := by
  induction h generalizing bs' with
  | nothing h =>
    cases h' with
    | nothing _ => rfl
    | beat k _ =>
      rw [h] at k
      cases k
  | beat h _ ih =>
    cases h' with
    | nothing k =>
      rw [h] at k
      cases k
    | beat k hrest' =>
      rw [h] at k
      cases k
      rw [ih hrest']

/-- when some of the beats have been paid for, what is left pays for the others -/
theorem Pays.rest {pre post : List Beat} (h : c.Pays rates (pre ++ post)) : (pre.foldl spend c).Pays rates post := by
  induction pre generalizing c with
  | nil => exact h
  | cons b pre ih =>
    cases h with
    | beat hnext hrest =>
      rw [next?_eq_some hnext] at hrest
      exact ih hrest

end Paying

variable {c : Clock Rat}

theorem foldl_spend (c : Clock Rat) (bs : List Beat) :
    bs.foldl spend c = ⟨c.steps - bs.count .step, c.ticks - bs.count .tick⟩ := by
  induction bs generalizing c with
  | nil =>
    simp only [List.foldl_nil, List.count_nil, Nat.cast_zero, sub_zero]
  | cons b bs ih =>
    have hone (x : Rat) (n : Nat) : x - 1 - n = x - (n + 1 : Nat) := by
      push_cast
      ring
    rw [List.foldl_cons, ih]
    cases b with
    | step =>
      rw [List.count_cons_self, List.count_cons_of_ne (by decide), ← hone]
      rfl
    | tick =>
      rw [List.count_cons_self, List.count_cons_of_ne (by decide), ← hone]
      rfl

/-- credit of less than one has no whole in it -/
theorem wholes_of_lt {x : Rat} (h : ¬ 1 ≤ x) : Credit.wholes x = 0 := by
  have hfloor : ⌊x⌋ < 1 := Int.floor_lt.2 (by
    rw [Int.cast_one]
    exact not_le.1 h)
  change ⌊x⌋.toNat = 0
  omega

/-- one taken away is a whole less -/
theorem wholes_sub_one {x : Rat} (h : 1 ≤ x) : Credit.wholes (x - 1) + 1 = Credit.wholes x := by
  have hfloor : 1 ≤ ⌊x⌋ := Int.le_floor.2 (by rwa [Int.cast_one])
  change ⌊x - 1⌋.toNat + 1 = ⌊x⌋.toNat
  rw [Int.floor_sub_one]
  omega

theorem beatCount_spend_step (h : 1 ≤ c.steps) : (c.spend .step).beatCount + 1 = c.beatCount := by
  have hsteps := wholes_sub_one h
  change Credit.wholes (c.steps - 1) + Credit.wholes c.ticks + 1 = Credit.wholes c.steps + Credit.wholes c.ticks
  omega

theorem beatCount_spend_tick (h : 1 ≤ c.ticks) : (c.spend .tick).beatCount + 1 = c.beatCount := by
  have hticks := wholes_sub_one h
  change Credit.wholes c.steps + Credit.wholes (c.ticks - 1) + 1 = Credit.wholes c.steps + Credit.wholes c.ticks
  omega

/-- either nothing is due and no whole is there, or a beat is due and costs one of the wholes -/
theorem next?_cases (rates : Rates Rat) (c : Clock Rat) :
    (c.next? rates = none ∧ c.beatCount = 0) ∨
      ∃ b, c.next? rates = some (b, c.spend b) ∧ (c.spend b).beatCount + 1 = c.beatCount := by
  have hnext : c.next? rates =
      if 1 ≤ c.steps then
        if 1 ≤ c.ticks ∧ ¬ age c.ticks rates.timer ≤ age c.steps rates.cpu then some (.tick, c.spend .tick)
        else some (.step, c.spend .step)
      else if 1 ≤ c.ticks then some (.tick, c.spend .tick)
      else none := rfl
  rw [hnext]
  split_ifs with hsteps hboth hticks
  · exact .inr ⟨.tick, rfl, beatCount_spend_tick hboth.1⟩
  · exact .inr ⟨.step, rfl, beatCount_spend_step hsteps⟩
  · exact .inr ⟨.tick, rfl, beatCount_spend_tick hticks⟩
  · refine .inl ⟨rfl, ?_⟩
    unfold beatCount
    rw [wholes_of_lt hsteps, wholes_of_lt hticks]

/-- the beats that the credit pays for when time has passed -/
def scheduled (clock : Clock Rat) (rates : Rates Rat) (elapsed : Rat) : List Beat :=
  (clock.credited rates elapsed).beats rates (clock.credited rates elapsed).beatCount

/-- as many beats as the credits have wholes are all that they pay for -/
theorem pays_beats (rates : Rates Rat) (c : Clock Rat) : c.Pays rates (c.beats rates c.beatCount) := by
  induction hn : c.beatCount generalizing c with
  | zero =>
    rcases next?_cases rates c with ⟨hnext, -⟩ | ⟨b, -, hcount⟩
    · exact .nothing hnext
    · omega
  | succ n ih =>
    rcases next?_cases rates c with ⟨-, hcount⟩ | ⟨b, hnext, hcount⟩
    · omega
    · simp only [beats, hnext]
      exact .beat hnext (ih (c.spend b) (by omega))

end Clock

/-! ## Beats up to the first that fails -/

namespace Effect

variable {p : Profile} {s : State}

/-- beats are all done, or there is a first instruction among them that fails -/
theorem forM_beat_cases (p : Profile) (s : State) (bs : List Beat) :
    (∃ t, forM bs (beat p) s = .ok () t) ∨
      ∃ pre post u f t, bs = pre ++ .step :: post ∧ forM pre (beat p) s = .ok () u ∧ step p u = .error f t := by
  induction bs generalizing s with
  | nil => exact .inl ⟨s, rfl⟩
  | cons b bs ih =>
    cases hb : beat p b s with
    | ok _ u =>
      have hcons (cs : List Beat) : forM (b :: cs) (beat p) s = forM cs (beat p) u := by
        rw [List.forM_cons, bind_apply, hb]
      rcases ih u with ⟨t, hrest⟩ | ⟨pre, post, v, f, t, rfl, hpre, hfault⟩
      · exact .inl ⟨t, (hcons bs).trans hrest⟩
      · exact .inr ⟨b :: pre, post, v, f, t, rfl, (hcons pre).trans hpre, hfault⟩
    | error f t =>
      cases b with
      | step =>
        have hfault : step p s = .error f t := by
          rcases bind_eq_error.1 hb with h | ⟨ins, u, -, hpure⟩
          · exact h
          · cases hpure
        exact .inr ⟨[], bs, s, f, t, rfl, rfl, hfault⟩
      | tick => cases hb

/-- every instruction that is done counts -/
theorem cycles_of_forM_beat {bs : List Beat} {t : State} (h : forM bs (beat p) s = .ok () t) :
    t.cycles = s.cycles + bs.count .step := by
  induction bs generalizing s with
  | nil =>
    cases h
    rfl
  | cons b bs ih =>
    rw [List.forM_cons] at h
    obtain ⟨⟨⟩, u, hb, hrest⟩ := bind_eq_ok.1 h
    have hlater := ih hrest
    cases b with
    | step =>
      obtain ⟨ins, v, hstep, hpure⟩ := bind_eq_ok.1 hb
      cases hpure
      rw [List.count_cons_self, hlater, cycles_of_step hstep]
      omega
    | tick =>
      cases hb
      rw [List.count_cons_of_ne (by decide), hlater]

end Effect

namespace Machine

section Driving

variable {κ : Type} [Credit κ] {m : Machine κ} {rates : Rates κ} {fuel : Nat} {pre post : List Beat} {s t : State}
  {f : Fault}

/-- an instruction that fails after beats that were done has cost its credit as they have, and the beats after it have
cost nothing -/
theorem forM_serve_of_fault (hpre : forM pre (Effect.beat m.config.profile) m.state = .ok () s)
    (hfault : Effect.step m.config.profile s = .error f t) :
    forM (pre ++ Beat.step :: post) serve m =
      .error (.fault f) ⟨m.config, t, (pre ++ [Beat.step]).foldl Clock.spend m.clock⟩ := by
  have hbeat : Effect.beat m.config.profile .step s = .error f t := bind_eq_error.2 (.inl hfault)
  rw [List.forM_append, bind_apply, forM_serve_of_ok hpre]
  simp only [List.forM_cons, bind_apply, serve_apply, hbeat, List.foldl_append]
  rfl

/-- the beats that `drive` takes on, up to and with the first that fails -/
def driven (rates : Rates κ) : (fuel : Nat) → Machine κ → List Beat
  | 0, _ => []
  | fuel + 1, m =>
    match m.clock.next? rates with
    | none => []
    | some (b, clock) =>
      b :: match beat b { m with clock } with
        | .ok _ m => driven rates fuel m
        | .error _ _ => []

theorem driven_of_beat {b : Beat} (hnext : m.clock.next? rates = some (b, m.clock.spend b))
    (hb : Effect.beat m.config.profile b m.state = .ok () s) (fuel : Nat) :
    driven rates (fuel + 1) m = b :: driven rates fuel ⟨m.config, s, m.clock.spend b⟩ := by
  have hserve : beat b ⟨m.config, m.state, m.clock.spend b⟩ = .ok () ⟨m.config, s, m.clock.spend b⟩ := by
    rw [beat_apply, hb]
  simp only [driven, hnext, hserve]

/-- if all beats that the credit pays for are done, they are what is taken on -/
theorem driven_of_ok (h : forM (m.clock.beats rates fuel) (Effect.beat m.config.profile) m.state = .ok () s) :
    driven rates fuel m = m.clock.beats rates fuel := by
  induction fuel generalizing m with
  | zero => rfl
  | succ fuel ih =>
    cases hnext : m.clock.next? rates with
    | none => simp only [driven, Clock.beats, hnext]
    | some next =>
      obtain ⟨b, rest⟩ := next
      obtain rfl := Clock.next?_eq_some hnext
      simp only [Clock.beats, hnext, List.forM_cons] at h ⊢
      obtain ⟨⟨⟩, u, hb, hrest⟩ := bind_eq_ok.1 h
      rw [driven_of_beat hnext hb, ih (m := ⟨m.config, u, m.clock.spend b⟩) hrest]

/-- if an instruction among them fails, the beats are taken on up to and with this one -/
theorem driven_of_fault (hbeats : m.clock.beats rates fuel = pre ++ .step :: post)
    (hpre : forM pre (Effect.beat m.config.profile) m.state = .ok () s)
    (hfault : Effect.step m.config.profile s = .error f t) : driven rates fuel m = pre ++ [.step] := by
  induction fuel generalizing m pre with
  | zero => simp [Clock.beats] at hbeats
  | succ fuel ih =>
    cases hnext : m.clock.next? rates with
    | none => simp [Clock.beats, hnext] at hbeats
    | some next =>
      obtain ⟨b, rest⟩ := next
      obtain rfl := Clock.next?_eq_some hnext
      simp only [Clock.beats, hnext] at hbeats
      cases pre with
      | nil =>
        cases hpre
        obtain ⟨rfl, -⟩ := List.cons.inj hbeats
        have hbeat : beat .step ⟨m.config, m.state, m.clock.spend .step⟩ =
            .error (.fault f) ⟨m.config, t, m.clock.spend .step⟩ := by
          rw [beat_apply]
          simp only [Effect.beat, bind_apply, hfault]
        simp only [driven, hnext, hbeat, List.nil_append]
      | cons c pre =>
        obtain ⟨rfl, hrest⟩ := List.cons.inj hbeats
        rw [List.forM_cons] at hpre
        obtain ⟨⟨⟩, u, hb, hlater⟩ := bind_eq_ok.1 hpre
        rw [driven_of_beat hnext hb, ih (m := ⟨m.config, u, m.clock.spend b⟩) hrest hlater hfault, List.cons_append]

end Driving

/-! ## Time that passes -/

variable {m : Machine Rat} {elapsed : Rat}

/-- the machine when time has passed and nothing of what has become due has been done yet -/
def credited (m : Machine Rat) (elapsed : Rat) : Machine Rat :=
  { m with clock := m.clock.credited m.config.rates elapsed }

/-- the beats that letting time pass takes on, up to and with the first that fails -/
def undertaken (m : Machine Rat) (elapsed : Rat) : List Beat :=
  if elapsed < 0 then [] else driven m.config.rates (m.credited elapsed).clock.beatCount (m.credited elapsed)

/-- letting time pass does what is due, beat after beat -/
theorem advance_due (he : 0 ≤ elapsed) :
    advance elapsed m = (do
      forM (m.due elapsed) serve
      return (m.due elapsed).count .step : MachineM Rat Nat) (m.credited elapsed) := by
  rw [advance_cases]
  exact if_neg (not_lt.2 he)

theorem due_eq (he : 0 ≤ elapsed) : m.due elapsed = m.clock.scheduled m.config.rates elapsed := by
  unfold due
  split_ifs with hneg
  · exact absurd he (not_le.2 hneg)
  · rfl

theorem undertaken_of_ok (he : 0 ≤ elapsed) {s : State}
    (h : forM (m.due elapsed) (Effect.beat m.config.profile) m.state = .ok () s) :
    m.undertaken elapsed = m.due elapsed := by
  rw [due_eq he] at h ⊢
  rw [undertaken, if_neg (not_lt.2 he)]
  exact driven_of_ok (m := m.credited elapsed) h

theorem undertaken_of_fault (he : 0 ≤ elapsed) {pre post : List Beat} {s t : State} {f : Fault}
    (hdue : m.due elapsed = pre ++ .step :: post)
    (hpre : forM pre (Effect.beat m.config.profile) m.state = .ok () s)
    (hfault : Effect.step m.config.profile s = .error f t) : m.undertaken elapsed = pre ++ [.step] := by
  rw [due_eq he] at hdue
  rw [undertaken, if_neg (not_lt.2 he)]
  exact driven_of_fault (m := m.credited elapsed) hdue hpre hfault

/-- if everything that is due is done, all of the credit for it is gone -/
theorem advance_of_done (he : 0 ≤ elapsed) {s : State}
    (h : forM (m.due elapsed) (Effect.beat m.config.profile) m.state = .ok () s) :
    advance elapsed m = .ok ((m.due elapsed).count .step)
      ⟨m.config, s, (m.due elapsed).foldl Clock.spend (m.credited elapsed).clock⟩ := by
  rw [advance_due he]
  exact bind_eq_ok.2 ⟨(), _, forM_serve_of_ok (m := m.credited elapsed) h, rfl⟩

/-- if an instruction fails, the credit for it and for what came before it is gone -/
theorem advance_of_fault (he : 0 ≤ elapsed) {pre post : List Beat} {s t : State} {f : Fault}
    (hdue : m.due elapsed = pre ++ .step :: post)
    (hpre : forM pre (Effect.beat m.config.profile) m.state = .ok () s)
    (hfault : Effect.step m.config.profile s = .error f t) :
    advance elapsed m =
      .error (.fault f) ⟨m.config, t, (pre ++ [Beat.step]).foldl Clock.spend (m.credited elapsed).clock⟩ := by
  rw [advance_due he, hdue]
  exact bind_eq_error.2 (.inl (forM_serve_of_fault (m := m.credited elapsed) hpre hfault))

/-- letting time pass does the beats that it takes on and no other, and counts the instructions among them -/
theorem advance_undertaken (he : 0 ≤ elapsed) :
    advance elapsed m = (do
      forM (m.undertaken elapsed) serve
      return (m.undertaken elapsed).count .step : MachineM Rat Nat) (m.credited elapsed) := by
  rcases Effect.forM_beat_cases m.config.profile m.state (m.due elapsed) with
    ⟨t, hall⟩ | ⟨pre, post, u, f, t, hdue, hpre, hfault⟩
  · rw [undertaken_of_ok he hall, advance_due he]
  · rw [undertaken_of_fault he hdue hpre hfault, advance_of_fault he hdue hpre hfault]
    exact (bind_eq_error.2 (.inl (forM_serve_of_fault (m := m.credited elapsed) hpre hfault))).symm

/-- letting time pass attempts these beats, in their order: they are what the credit pays for, and they are taken on up
to the first that fails, which are all of them if there is no error -/
structure Attempts (m : Machine Rat) (elapsed : Rat) (bs : List Beat) : Prop where
  paid : (m.credited elapsed).clock.Pays m.config.rates bs
  started : m.undertaken elapsed <+: bs
  finished : (∀ e t, advance elapsed m ≠ .error e t) → m.undertaken elapsed = bs

theorem Attempts.unique {bs bs' : List Beat} (h : m.Attempts elapsed bs) (h' : m.Attempts elapsed bs') : bs = bs' :=
  h.paid.unique h'.paid

/-- what letting time pass attempts is what is due -/
theorem attempts_due (m : Machine Rat) (he : 0 ≤ elapsed) : m.Attempts elapsed (m.due elapsed) := by
  have hpaid : (m.credited elapsed).clock.Pays m.config.rates (m.due elapsed) := by
    rw [due_eq he]
    exact Clock.pays_beats _ _
  rcases Effect.forM_beat_cases m.config.profile m.state (m.due elapsed) with
    ⟨t, hall⟩ | ⟨pre, post, u, f, t, hdue, hpre, hfault⟩
  · have hundertaken := undertaken_of_ok he hall
    exact ⟨hpaid, hundertaken ▸ List.prefix_refl _, fun _ => hundertaken⟩
  · refine ⟨hpaid, ?_, fun hnone => absurd (advance_of_fault he hdue hpre hfault) (hnone _ _)⟩
    rw [undertaken_of_fault he hdue hpre hfault, hdue]
    exact ⟨post, by simp⟩

theorem attempts_iff (m : Machine Rat) (he : 0 ≤ elapsed) (bs : List Beat) :
    m.Attempts elapsed bs ↔ bs = m.due elapsed := by
  constructor
  · intro h
    exact h.unique (attempts_due m he)
  · rintro rfl
    exact attempts_due m he

/-- if no time passes, the credit is what it was -/
theorem credited_zero (m : Machine Rat) : m.credited 0 = m := by
  have hzero (x rate : Rat) : x + 0 * rate = x := by
    rw [zero_mul, add_zero]
  unfold credited Clock.credited
  rw [hzero, hzero]

/-- what is attempted without any time passing is what the credit pays for -/
theorem attempts_zero {bs : List Beat} (h : m.clock.Pays m.config.rates bs) (bs' : List Beat) :
    m.Attempts 0 bs' ↔ bs' = bs := by
  have hdue := (attempts_due m le_rfl).paid
  rw [credited_zero] at hdue
  rw [attempts_iff m le_rfl, hdue.unique h]

end Machine

/-- **An interruption loses nothing and repeats nothing.** Time that runs backward is refused, and nothing changes. For
any credit, rates and time that passes there is one list of beats that is attempted, whatever the program and the state
of the machine are. If an instruction among them fails, the machine has done what comes before it and what the failing
instruction does itself, the credit for all this is gone, and what is attempted when no time at all passes after that
are the beats behind the instruction in their order. If none fails, all beats are done, and the number that is returned
is by how much the count of cycles has grown. -/
theorem advance_resumes (clock : Clock Rat) (cpuHz timerHz : Int) :
    (∀ (m : Machine Rat) (elapsed : Rat), elapsed < 0 → Machine.advance elapsed m = .error .negativeTime m) ∧
    ∀ elapsed : Rat, 0 ≤ elapsed → ∃ bs : List Beat, ∀ m : Machine Rat,
      m.clock = clock → m.config.cpuHz = cpuHz → m.config.timerHz = timerHz →
      (∀ bs', m.Attempts elapsed bs' ↔ bs' = bs) ∧
      (∀ (pre post : List Beat) (s t : State) (f : Fault), bs = pre ++ .step :: post →
        forM pre (Effect.beat m.config.profile) m.state = .ok () s → Effect.step m.config.profile s = .error f t →
        m.undertaken elapsed = pre ++ [.step] ∧
        ∃ stopped : Machine Rat, Machine.advance elapsed m = .error (.fault f) stopped ∧
          stopped.config = m.config ∧ stopped.state = t ∧
          stopped.clock = ⟨clock.steps + elapsed * cpuHz - (pre.count .step + 1),
            clock.ticks + elapsed * timerHz - pre.count .tick⟩ ∧
          ∀ bs', stopped.Attempts 0 bs' ↔ bs' = post) ∧
      ((∀ f t, Machine.advance elapsed m ≠ .error (.fault f) t) → ∃ t : Machine Rat,
        m.undertaken elapsed = bs ∧ Machine.advance elapsed m = .ok (bs.count .step) t ∧
        forM bs (Effect.beat m.config.profile) m.state = .ok () t.state ∧
        t.state.cycles = m.state.cycles + bs.count .step) := by
  constructor
  · intro m elapsed hneg
    rw [Machine.advance_cases]
    exact if_pos hneg
  intro elapsed he
  refine ⟨clock.scheduled ⟨cpuHz, timerHz⟩ elapsed, ?_⟩
  rintro m rfl rfl rfl
  have hschedule : m.clock.scheduled ⟨m.config.cpuHz, m.config.timerHz⟩ elapsed = m.due elapsed :=
    (Machine.due_eq he).symm
  rw [hschedule]
  refine ⟨Machine.attempts_iff m he, ?_, ?_⟩
  · intro pre post s t f hdue hpre hfault
    have hpaid := (Machine.attempts_due m he).paid
    rw [hdue, List.append_cons] at hpaid
    refine ⟨Machine.undertaken_of_fault he hdue hpre hfault, _, Machine.advance_of_fault he hdue hpre hfault, rfl, rfl,
      ?_, Machine.attempts_zero hpaid.rest⟩
    rw [Clock.foldl_spend, List.count_append, List.count_append]
    refine congrArg₂ Clock.mk ?_ ?_
    · rw [List.count_singleton_self, Nat.cast_add, Nat.cast_one]
      rfl
    · rw [List.count_cons_of_ne (by decide), List.count_nil, Nat.add_zero]
      rfl
  · intro hnone
    rcases Effect.forM_beat_cases m.config.profile m.state (m.due elapsed) with
      ⟨t, hall⟩ | ⟨pre, post, u, f, t, hdue, hpre, hfault⟩
    · refine ⟨_, Machine.undertaken_of_ok he hall, Machine.advance_of_done he hall, hall, ?_⟩
      exact Effect.cycles_of_forM_beat hall
    · exact absurd (Machine.advance_of_fault he hdue hpre hfault) (hnone _ _)

/-- a machine with one good instruction before one that does not exist -/
def interrupted : Machine Rat where
  config := { memorySize := 4, cpuHz := 3, timerHz := 2 }
  state := { memory := ⟨#[0x60, 0x07, 0xF0, 0xFF]⟩, screen := .dark 8 8, rng := .ofSeed 0 }
  clock := ⟨1 / 2, 1⟩

/-- of six beats in a second the third fails; the other three are left -/
theorem interrupted_resumes :
    (0 : Rat) ≤ 1 ∧ interrupted.undertaken 1 = [.tick, .step, .step] ∧
      ∃ stopped : Machine Rat, Machine.advance 1 interrupted = .error (.fault (.unsupportedOpcode 0xF0FF)) stopped ∧
        stopped.state.cpu.pc = 4 ∧ stopped.clock = ⟨3 / 2, 2⟩ ∧
        ∀ bs, stopped.Attempts 0 bs ↔ bs = [.tick, .step, .tick] := by
  have hdue : interrupted.due 1 = [.tick, .step, .step, .tick, .step, .tick] := by decide +kernel
  obtain ⟨bs, hbs⟩ := (advance_resumes ⟨1 / 2, 1⟩ 3 2).2 1 zero_le_one
  obtain ⟨hattempts, hfault, -⟩ := hbs interrupted rfl rfl rfl
  have hall : [.tick, .step, .step, .tick, .step, .tick] = bs :=
    (hattempts _).1 (hdue ▸ Machine.attempts_due interrupted zero_le_one)
  let ticked := interrupted.state.withCpu interrupted.state.cpu.tick
  let loaded := ticked.next interrupted.config.profile
  have hload : Effect.beat interrupted.config.profile .step ticked = .ok () loaded :=
    bind_eq_ok.2 ⟨_, loaded, Effect.step_eq_ok.2 ⟨by decide +kernel, rfl, rfl⟩, rfl⟩
  have hpre : forM [.tick, .step] (Effect.beat interrupted.config.profile) interrupted.state = .ok () loaded := by
    rw [List.forM_cons, List.forM_cons]
    exact bind_eq_ok.2 ⟨(), ticked, rfl, bind_eq_ok.2 ⟨(), loaded, hload, rfl⟩⟩
  have hstep : Effect.step interrupted.config.profile loaded = .error (.unsupportedOpcode 0xF0FF) loaded.halted :=
    Effect.step_eq_error.2 ⟨by decide +kernel, rfl⟩
  obtain ⟨hundertaken, stopped, hadvance, -, hstate, hclock, hrest⟩ :=
    hfault [.tick, .step] [.tick, .step, .tick] loaded loaded.halted _ hall.symm hpre hstep
  refine ⟨zero_le_one, hundertaken, stopped, hadvance, ?_, ?_, hrest⟩
  · rw [hstate]
    decide +kernel
  · rw [hclock]
    decide +kernel

end Chip8
