/-
Time that passes. To let time pass is to take what the clock hands out, beat after beat, and to do what each asks for
(`drive_apply`); in exact time these are the beats that have become due, in the order in which they are due
(`advance_eq`), and however the time is cut into pieces, they are the same ones (`mapM_advance_of_ok`).

- `advance_on_time`: both together, from a machine that owes nothing.
-/
import Chip8.Machine
import Chip8.Proofs.Act
import Chip8.Proofs.Timetable

namespace Chip8

open Act

def Effect.beat (p : Profile) : Beat → Effect Unit
  | .step => do let _ ← Effect.step p
  | .tick => Effect.tick

/-- the rates of a configuration, in exact numbers -/
def Config.rates (c : Config) : Rates Rat := ⟨c.cpuHz, c.timerHz⟩

namespace Machine

/-! ## Beats as they are done -/

section Beats

variable {κ : Type}

theorem beat_apply (b : Beat) (m : Machine κ) :
    beat b m = match Effect.beat m.config.profile b m.state with
      | .ok _ s => .ok () { m with state := s }
      | .error f s => .error (.fault f) { m with state := s } := by
  cases b with
  | step =>
    simp only [beat, step, Effect.beat, bind_apply, get_apply, act]
    cases Effect.step m.config.profile m.state <;> rfl
  | tick => rfl

variable [Credit κ]

/-- take the credit for a beat and do what the beat asks for -/
def serve (b : Beat) : MachineM κ Unit := fun m => beat b { m with clock := m.clock.spend b }

theorem serve_apply (b : Beat) (m : Machine κ) :
    serve b m = match Effect.beat m.config.profile b m.state with
      | .ok _ s => .ok () ⟨m.config, s, m.clock.spend b⟩
      | .error f s => .error (.fault f) ⟨m.config, s, m.clock.spend b⟩ :=
  beat_apply b _

/-- beats that are all done lead to the state they ask for, and each has cost its credit -/
theorem forM_serve_of_ok {bs : List Beat} {m : Machine κ} {s : State}
    (h : forM bs (Effect.beat m.config.profile) m.state = .ok () s) :
    forM bs serve m = .ok () ⟨m.config, s, bs.foldl Clock.spend m.clock⟩ := by
  induction bs generalizing m with
  | nil =>
    cases h
    rfl
  | cons b bs ih =>
    rw [List.forM_cons] at h ⊢
    obtain ⟨⟨⟩, u, hb, hrest⟩ := bind_eq_ok.1 h
    refine bind_eq_ok.2 ⟨(), ⟨m.config, u, m.clock.spend b⟩, ?_, ih (m := ⟨m.config, u, _⟩) hrest⟩
    rw [serve_apply, hb]

theorem forM_serve_of_error {bs : List Beat} {m : Machine κ} {f : Fault} {s : State}
    (h : forM bs (Effect.beat m.config.profile) m.state = .error f s) :
    ∃ clock, forM bs serve m = .error (.fault f) ⟨m.config, s, clock⟩ := by
  induction bs generalizing m with
  | nil => cases h
  | cons b bs ih =>
    rw [List.forM_cons] at h ⊢
    rcases bind_eq_error.1 h with hb | ⟨⟨⟩, u, hb, hrest⟩
    · refine ⟨m.clock.spend b, bind_eq_error.2 (.inl ?_)⟩
      rw [serve_apply, hb]
    · obtain ⟨clock, hrest⟩ := ih (m := ⟨m.config, u, m.clock.spend b⟩) hrest
      refine ⟨clock, bind_eq_error.2 (.inr ⟨(), ⟨m.config, u, m.clock.spend b⟩, ?_, hrest⟩)⟩
      rw [serve_apply, hb]

theorem clock_of_serve {b : Beat} {m t : Machine κ} (h : serve b m = .ok () t) : t.clock = m.clock.spend b := by
  rw [serve_apply] at h
  cases hb : Effect.beat m.config.profile b m.state with
  | ok _ s =>
    rw [hb] at h
    cases h
    rfl
  | error f s =>
    rw [hb] at h
    cases h

/-- to do what is due is to take the beats that the credit pays for one after the other, and to count the
instructions. The clock alone decides which beats they are: what a beat asks for does not touch the credit -/
theorem drive_apply (rates : Rates κ) (fuel executed : Nat) (m : Machine κ) :
    drive rates fuel executed m =
      (do
        forM (m.clock.beats rates fuel) serve
        return executed + (m.clock.beats rates fuel).count .step : MachineM κ Nat) m := by
  induction fuel generalizing executed m with
  | zero => rfl
  | succ fuel ih =>
    simp only [drive, bind_apply, get_apply, Clock.beats]
    cases hnext : m.clock.next? rates with
    | none => rfl
    | some next =>
      obtain ⟨b, rest⟩ := next
      obtain rfl := Clock.next?_eq_some hnext
      have hcount (bs : List Beat) :
          (if b = .step then executed + 1 else executed) + bs.count .step = executed + (b :: bs).count .step := by
        cases b with
        | step =>
          rw [if_pos rfl, List.count_cons_self]
          omega
        | tick => rw [if_neg (by decide), List.count_cons_of_ne (by decide)]
      have hserve : beat b ⟨m.config, m.state, m.clock.spend b⟩ = serve b m := rfl
      simp only [List.forM_cons, bind_apply, set_apply, hserve]
      cases hb : serve b m with
      | error e t => rfl
      | ok _ t =>
        simp only [ih, clock_of_serve hb, hcount]
        rfl

end Beats

end Machine

/-! ## Time as it passes -/

/-- the clock when time has passed and nothing of what has become due has been done yet -/
def Clock.credited {κ : Type} [Credit κ] (clock : Clock κ) (rates : Rates κ) (elapsed : κ) : Clock κ :=
  ⟨clock.steps + elapsed * rates.cpu, clock.ticks + elapsed * rates.timer⟩

namespace Machine

section Time

open scoped Credit

variable {κ : Type} [Credit κ]

/-- the beats that become due when time passes; none if it runs backward or a rate is too large to count credit with -/
def due (m : Machine κ) (elapsed : κ) : List Beat :=
  if elapsed < Credit.zero then [] else
  match (Credit.ofInt? m.config.cpuHz : Option κ), (Credit.ofInt? m.config.timerHz : Option κ) with
  | some cpu, some timer =>
    let clock := m.clock.credited ⟨cpu, timer⟩ elapsed
    clock.beats ⟨cpu, timer⟩ clock.beatCount
  | _, _ => []

/-- letting time pass is to look at time and rates first, and then to do the beats that become due -/
theorem advance_cases (elapsed : κ) (m : Machine κ) :
    advance elapsed m =
      if elapsed < Credit.zero then .error .negativeTime m else
      match (Credit.ofInt? m.config.cpuHz : Option κ), (Credit.ofInt? m.config.timerHz : Option κ) with
      | none, _ => .error .tooLarge m
      | some cpu, none => .error .tooLarge { m with clock := { m.clock with steps := m.clock.steps + elapsed * cpu } }
      | some cpu, some timer =>
        (do
          forM (m.due elapsed) serve
          return (m.due elapsed).count .step : MachineM κ Nat)
          { m with clock := m.clock.credited ⟨cpu, timer⟩ elapsed } := by
  unfold advance due
  by_cases he : elapsed < Credit.zero
  · rw [if_pos he, if_pos he]
    rfl
  rw [if_neg he, if_neg he, if_neg he]
  simp only [bind_apply, get_apply, rate]
  cases hcpu : (Credit.ofInt? m.config.cpuHz : Option κ) with
  | none => rfl
  | some cpu =>
    simp only [pure_apply, modify_apply]
    cases htimer : (Credit.ofInt? m.config.timerHz : Option κ) with
    | none => rfl
    | some timer =>
      simp only [pure_apply, drive_apply, Nat.zero_add]
      rfl

end Time

/-! ## Exact time -/

section Exact

variable {m : Machine Rat} {time e : Rat}

theorem foldl_spend_clockAt (r : Rates Rat) (time : Rat) (t : Tally) (bs : List Beat) :
    bs.foldl Clock.spend (r.clockAt time t) = r.clockAt time (t.addAll bs) := by
  induction bs generalizing t with
  | nil => rfl
  | cons b bs ih => rw [List.foldl_cons, r.spend_clockAt, ih, Tally.addAll_cons]

/-- everything that is due by `time` has been done, and nothing else -/
def Settled (m : Machine Rat) (time : Rat) : Prop :=
  m.clock = m.config.rates.clockAt time (m.config.rates.tallyAt time)

/-- the beats that become due in a span of time after `time` -/
def ahead (m : Machine Rat) (time span : Rat) : List Beat :=
  m.config.rates.pending (m.config.rates.tallyAt time) (time + span)

/-- the machine with another state, and everything done that is due by `time` -/
def settledAt (m : Machine Rat) (s : State) (time : Rat) : Machine Rat :=
  ⟨m.config, s, m.config.rates.clockAt time (m.config.rates.tallyAt time)⟩

theorem advance_apply (he : 0 ≤ e) :
    advance e m =
      drive m.config.rates
        (Clock.beatCount ⟨m.clock.steps + e * m.config.cpuHz, m.clock.ticks + e * m.config.timerHz⟩) 0
        { m with clock := ⟨m.clock.steps + e * m.config.cpuHz, m.clock.ticks + e * m.config.timerHz⟩ } := by
  unfold advance
  split_ifs with hneg
  · exact absurd he (not_le.2 hneg)
  · rfl

/-- the credit of a settled machine when time has passed -/
theorem credited_of_settled (hm : m.Settled time) (e : Rat) :
    m.clock.credited m.config.rates e = m.config.rates.clockAt (time + e) (m.config.rates.tallyAt time) := by
  rw [hm]
  refine congrArg₂ Clock.mk ?_ ?_
  · simp only [Rates.clockAt, Config.rates]
    ring
  · simp only [Rates.clockAt, Config.rates]
    ring

/-- to let time pass from a settled machine is to do the beats ahead, in their order -/
theorem advance_eq (hr : ∀ b, 0 < m.config.rates.of b) (hm : m.Settled time) (he : 0 ≤ e) :
    advance e m =
      (do
        forM (m.ahead time e) serve
        return (m.ahead time e).count .step : MachineM Rat Nat)
        { m with clock := m.config.rates.clockAt (time + e) (m.config.rates.tallyAt time) } := by
  have hclock : (⟨m.clock.steps + e * m.config.cpuHz, m.clock.ticks + e * m.config.timerHz⟩ : Clock Rat) =
      m.config.rates.clockAt (time + e) (m.config.rates.tallyAt time) := credited_of_settled hm e
  have hle := Rates.tallyAt_mono hr (le_add_of_nonneg_right he : time ≤ time + e)
  rw [advance_apply he, hclock, drive_apply, Rates.beatCount_clockAt, Rates.beats_clockAt hr hle, Nat.zero_add]
  rfl

theorem addAll_ahead (hr : ∀ b, 0 < m.config.rates.of b) (time : Rat) (he : 0 ≤ e) :
    (m.config.rates.tallyAt time).addAll (m.ahead time e) = m.config.rates.tallyAt (time + e) :=
  Rates.addAll_pending hr (Rates.tallyAt_mono hr (le_add_of_nonneg_right he))

theorem advance_of_ok (hr : ∀ b, 0 < m.config.rates.of b) (hm : m.Settled time) (he : 0 ≤ e) {s : State}
    (h : forM (m.ahead time e) (Effect.beat m.config.profile) m.state = .ok () s) :
    advance e m = .ok ((m.ahead time e).count .step) (m.settledAt s (time + e)) := by
  have hserve := forM_serve_of_ok
    (m := { m with clock := m.config.rates.clockAt (time + e) (m.config.rates.tallyAt time) }) h
  rw [foldl_spend_clockAt, addAll_ahead hr time he] at hserve
  rw [advance_eq hr hm he]
  exact bind_eq_ok.2 ⟨(), _, hserve, rfl⟩

theorem advance_of_error (hr : ∀ b, 0 < m.config.rates.of b) (hm : m.Settled time) (he : 0 ≤ e) {f : Fault} {s : State}
    (h : forM (m.ahead time e) (Effect.beat m.config.profile) m.state = .error f s) :
    ∃ t, advance e m = .error (.fault f) t := by
  obtain ⟨clock, hserve⟩ := forM_serve_of_error
    (m := { m with clock := m.config.rates.clockAt (time + e) (m.config.rates.tallyAt time) }) h
  rw [advance_eq hr hm he]
  exact ⟨_, bind_eq_error.2 (.inl hserve)⟩

/-- the beats ahead in a span of time made of two are those ahead in the first and then those ahead in the second -/
theorem ahead_append (hr : ∀ b, 0 < m.config.rates.of b) (he : 0 ≤ e) {e' : Rat} (he' : 0 ≤ e') :
    m.ahead time (e + e') = m.ahead time e ++ m.ahead (time + e) e' := by
  unfold ahead
  rw [← add_assoc]
  exact Rates.pending_append hr (Rates.tallyAt_mono hr (le_add_of_nonneg_right he)) (le_add_of_nonneg_right he')

theorem ahead_zero (m : Machine Rat) (time : Rat) : m.ahead time 0 = [] := by
  rw [ahead, add_zero, Rates.pending_tallyAt]

/-- however a span of time is cut, the beats ahead in it are done in their order -/
theorem mapM_advance_of_ok {es : List Rat} (hr : ∀ b, 0 < m.config.rates.of b) (hm : m.Settled time)
    (hes : ∀ e ∈ es, 0 ≤ e) {s : State}
    (h : forM (m.ahead time es.sum) (Effect.beat m.config.profile) m.state = .ok () s) :
    ∃ counts, es.mapM advance m = .ok counts (m.settledAt s (time + es.sum)) ∧
      counts.sum = (m.ahead time es.sum).count .step := by
  induction es generalizing m time with
  | nil =>
    rw [List.sum_nil, ahead_zero] at h ⊢
    cases h
    refine ⟨[], ?_, rfl⟩
    rw [add_zero, settledAt, ← hm]
    rfl
  | cons e es ih =>
    have he := hes e List.mem_cons_self
    have hes' : ∀ e ∈ es, 0 ≤ e := fun e h => hes e (List.mem_cons_of_mem _ h)
    rw [List.sum_cons, ahead_append hr he (List.sum_nonneg hes')] at h ⊢
    rw [List.forM_append] at h
    obtain ⟨⟨⟩, u, hfirst, hrest⟩ := bind_eq_ok.1 h
    obtain ⟨counts, hcounts, hsum⟩ := ih (m := m.settledAt u (time + e)) hr rfl hes' hrest
    refine ⟨(m.ahead time e).count .step :: counts, ?_, ?_⟩
    · rw [List.mapM_cons, ← add_assoc]
      exact bind_eq_ok.2 ⟨_, _, advance_of_ok hr hm he hfirst, bind_eq_ok.2 ⟨_, _, hcounts, rfl⟩⟩
    · rw [List.sum_cons, List.count_append, hsum]
      rfl

theorem mapM_advance_of_error {es : List Rat} (hr : ∀ b, 0 < m.config.rates.of b) (hm : m.Settled time)
    (hes : ∀ e ∈ es, 0 ≤ e) {f : Fault} {s : State}
    (h : forM (m.ahead time es.sum) (Effect.beat m.config.profile) m.state = .error f s) :
    ∃ t, es.mapM advance m = .error (.fault f) t := by
  induction es generalizing m time with
  | nil =>
    rw [List.sum_nil, ahead_zero] at h
    cases h
  | cons e es ih =>
    have he := hes e List.mem_cons_self
    have hes' : ∀ e ∈ es, 0 ≤ e := fun e h => hes e (List.mem_cons_of_mem _ h)
    rw [List.sum_cons, ahead_append hr he (List.sum_nonneg hes'), List.forM_append] at h
    rw [List.mapM_cons]
    rcases bind_eq_error.1 h with hfirst | ⟨⟨⟩, u, hfirst, hrest⟩
    · obtain ⟨t, ht⟩ := advance_of_error hr hm he hfirst
      exact ⟨t, bind_eq_error.2 (.inl ht)⟩
    · obtain ⟨t, ht⟩ := ih (m := m.settledAt u (time + e)) hr rfl hes' hrest
      exact ⟨t, bind_eq_error.2 (.inr ⟨_, _, advance_of_ok hr hm he hfirst, bind_eq_error.2 (.inl ht)⟩)⟩

end Exact

end Machine

/-! ## Reconciliation -/

/-- **Time is kept exactly, however it is cut.** Any lengths of time pass for a machine that owes nothing, and no
instruction fails in them. Then after every one of them the instructions and timer beats done so far are as many as the
rates ask for in the time so far, they were done in the order in which they are due, an instruction first if one of each
is due at the same time, and the credit left is the fractions. Any other lengths of time with the same sum lead to the
same machine and to the same number of instructions. -/
theorem advance_on_time {m : Machine Rat} (hcpu : 0 < m.config.cpuHz) (htimer : 0 < m.config.timerHz)
    (hclock : m.clock = Clock.zero) {es : List Rat} (hes : ∀ e ∈ es, 0 ≤ e)
    (hsteps : ∀ f t, es.mapM Machine.advance m ≠ .error (.fault f) t) :
    (∀ es₁ : List Rat, es₁ <+: es → ∃ (counts : List Nat) (t : Machine Rat) (bs : List Beat),
      es₁.mapM Machine.advance m = .ok counts t ∧
      (∀ bs', m.config.rates.OnTime es₁.sum bs' ↔ bs' = bs) ∧
      forM bs (Effect.beat m.config.profile) m.state = .ok () t.state ∧
      t.config = m.config ∧
      (counts.sum : Int) = ⌊m.config.cpuHz * es₁.sum⌋ ∧
      t.clock = ⟨Int.fract (m.config.cpuHz * es₁.sum), Int.fract (m.config.timerHz * es₁.sum)⟩ ∧
      (0 ≤ t.clock.steps ∧ t.clock.steps < 1) ∧ (0 ≤ t.clock.ticks ∧ t.clock.ticks < 1)) ∧
    ∀ es' : List Rat, (∀ e ∈ es', 0 ≤ e) → es'.sum = es.sum → ∃ (counts counts' : List Nat) (t : Machine Rat),
      es.mapM Machine.advance m = .ok counts t ∧ es'.mapM Machine.advance m = .ok counts' t ∧
        counts'.sum = counts.sum := by
  have hr : ∀ b, 0 < m.config.rates.of b := by
    intro b
    cases b with
    | step => exact Int.cast_pos.2 hcpu
    | tick => exact Int.cast_pos.2 htimer
  have hm : m.Settled 0 := hclock.trans (Rates.clockAt_zero _).symm
  obtain ⟨s, hs⟩ : ∃ s, forM (m.ahead 0 es.sum) (Effect.beat m.config.profile) m.state = .ok () s := by
    cases h : forM (m.ahead 0 es.sum) (Effect.beat m.config.profile) m.state with
    | ok _ s => exact ⟨s, rfl⟩
    | error f s =>
      obtain ⟨t, ht⟩ := Machine.mapM_advance_of_error hr hm hes h
      exact absurd ht (hsteps f t)
  constructor
  · rintro es₁ ⟨es₂, rfl⟩
    have hes₁ : ∀ e ∈ es₁, 0 ≤ e := fun e he => hes e (List.mem_append_left _ he)
    have hes₂ : ∀ e ∈ es₂, 0 ≤ e := fun e he => hes e (List.mem_append_right _ he)
    have hsum := List.sum_nonneg hes₁
    rw [List.sum_append, Machine.ahead_append hr hsum (List.sum_nonneg hes₂), List.forM_append] at hs
    obtain ⟨⟨⟩, u, hu, -⟩ := bind_eq_ok.1 hs
    obtain ⟨counts, hcounts, hcount⟩ := Machine.mapM_advance_of_ok hr hm hes₁ hu
    have htime (bs : List Beat) : m.config.rates.OnTime es₁.sum bs ↔ bs = m.ahead 0 es₁.sum := by
      rw [Rates.onTime_iff hr hsum, Machine.ahead, Rates.tallyAt_zero, zero_add]
    have hfract : (m.settledAt u (0 + es₁.sum)).clock =
        ⟨Int.fract (m.config.cpuHz * es₁.sum), Int.fract (m.config.timerHz * es₁.sum)⟩ := by
      rw [zero_add]
      exact Rates.clockAt_tallyAt hr hsum
    refine ⟨counts, _, _, hcounts, htime, hu, rfl, ?_, hfract, ?_, ?_⟩
    · rw [hcount]
      exact ((htime _).2 rfl).count .step
    · rw [hfract]
      exact ⟨Int.fract_nonneg _, Int.fract_lt_one _⟩
    · rw [hfract]
      exact ⟨Int.fract_nonneg _, Int.fract_lt_one _⟩
  · intro es' hes' hsum
    obtain ⟨counts, hcounts, hcount⟩ := Machine.mapM_advance_of_ok hr hm hes hs
    rw [← hsum] at hs hcounts hcount
    obtain ⟨counts', hcounts', hcount'⟩ := Machine.mapM_advance_of_ok hr hm hes' hs
    exact ⟨counts, counts', _, hcounts, hcounts', hcount'.trans hcount.symm⟩

/-- a machine with a jump to itself, three instructions and two timer beats a second -/
def spinning : Machine Rat where
  config := { memorySize := 2, cpuHz := 3, timerHz := 2 }
  state := { memory := ⟨#[0x10, 0x00]⟩, screen := .dark 8 8, rng := .ofSeed 0 }
  clock := Clock.zero

theorem spinning_on_time :
    (∀ f t, [1 / 2, 1 / 2].mapM Machine.advance spinning ≠ .error (.fault f) t) ∧
      ∃ (counts counts' : List Nat) (t : Machine Rat), [1 / 2, 1 / 2].mapM Machine.advance spinning = .ok counts t ∧
        [1].mapM Machine.advance spinning = .ok counts' t ∧ counts'.sum = counts.sum := by
  have hsteps : ∀ f t, [1 / 2, 1 / 2].mapM Machine.advance spinning ≠ .error (.fault f) t := by
    intro f t h
    have hok : (match [1 / 2, 1 / 2].mapM Machine.advance spinning with
      | .ok _ _ => true
      | .error _ _ => false) = true := by decide +kernel
    rw [h] at hok
    cases hok
  refine ⟨hsteps, (advance_on_time (by decide) (by decide) rfl ?_ hsteps).2 [1] ?_ ?_⟩
  · norm_num
  · norm_num
  · norm_num

end Chip8
