/-
Frames and elapsed time. A frame is the instructions of one timer beat and then the beat, whatever the clock says; time
that passes hands out beats as they become due. If the rate of instructions is a multiple of the rate of timer beats, the
last instruction of a frame and the beat after it are due at the same time, an instruction comes first then, and so both
ways to drive a machine do the same.

- `Rates.agenda_reel`: the agenda is one frame after the other.
- `Machine.runFrame_apply`, `Machine.frames_apply`: frames do the beats in them, in their order.
- `frames_keep_time`: a number of frames, and the time that they take.
-/
import Chip8.Proofs.Interruption

namespace Chip8

open Act

/-! ## Frames as beats -/

/-- the beats of a frame with `n` instructions -/
def frame (n : Nat) : List Beat := List.replicate n .step ++ [.tick]

/-- the beats of `k` frames with `n` instructions each -/
def reel (k n : Nat) : List Beat := (List.replicate k (frame n)).flatten

theorem reel_succ (k n : Nat) : reel (k + 1) n = frame n ++ reel k n := rfl

theorem count_step_frame (n : Nat) : (frame n).count .step = n := by
  simp [frame]

theorem count_tick_frame (n : Nat) : (frame n).count .tick = 1 := by
  simp [frame, List.count_replicate]

theorem count_step_reel (k n : Nat) : (reel k n).count .step = k * n := by
  induction k with
  | zero => simp [reel]
  | succ k ih =>
    rw [reel_succ, List.count_append, ih, count_step_frame, Nat.succ_mul, Nat.add_comm]

theorem count_tick_reel (k n : Nat) : (reel k n).count .tick = k := by
  induction k with
  | zero => rfl
  | succ k ih =>
    rw [reel_succ, List.count_append, ih, count_tick_frame, Nat.add_comm]

namespace Rates

/-- there are `n` instructions to a timer beat, at least one -/
structure Multiple (r : Rates Rat) (n : Nat) : Prop where
  timer_pos : 0 < r.timer
  cpu_eq : r.cpu = n * r.timer
  ratio_pos : 0 < n

variable {r : Rates Rat} {n : Nat}

theorem Multiple.of_pos (hr : r.Multiple n) (b : Beat) : 0 < r.of b := by
  cases b with
  | step =>
    change 0 < r.cpu
    rw [hr.cpu_eq]
    exact mul_pos (Nat.cast_pos.2 hr.ratio_pos) hr.timer_pos
  | tick => exact hr.timer_pos

/-- an instruction is due next as long as it is one of those up to the next timer beat, the last of which is due at the
same time as this -/
theorem first_of_multiple (hr : r.Multiple n) (t : Tally) :
    r.first t = if t .step < (t .tick + 1) * n then .step else .tick := by
  have hdue : r.due t .step ≤ r.due t .tick ↔ t .step < (t .tick + 1) * n := by
    have hn : (0 : Rat) < n := Nat.cast_pos.2 hr.ratio_pos
    have hstep : r.due t .step = (t .step + 1) / n / r.timer := by
      change ((t .step : Rat) + 1) / r.cpu = _
      rw [hr.cpu_eq, div_div]
    have htick : r.due t .tick = (t .tick + 1) / r.timer := rfl
    rw [hstep, htick, div_le_div_iff_of_pos_right hr.timer_pos, div_le_iff₀ hn]
    exact_mod_cast Nat.succ_le_iff
  unfold first
  by_cases h : t .step < (t .tick + 1) * n
  · rw [if_pos (hdue.2 h), if_pos h]
  · rw [if_neg (fun hle => h (hdue.1 hle)), if_neg h]

/-- up to the next timer beat the agenda has instructions only -/
theorem agenda_steps (hr : r.Multiple n) {j : Nat} {t : Tally} (h : t .step + j ≤ (t .tick + 1) * n) :
    r.agenda j t = List.replicate j .step := by
  induction j generalizing t with
  | zero => rfl
  | succ j ih =>
    have hfirst : r.first t = .step := by
      rw [first_of_multiple hr, if_pos (by omega)]
    have hstep : t.add .step .step = t .step + 1 := t.add_self .step
    have htick : t.add .step .tick = t .tick := Tally.add_of_ne (by decide)
    rw [agenda, hfirst, ih (by rw [hstep, htick]; omega), List.replicate_succ]

/-- after whole frames the agenda goes on with a frame -/
theorem agenda_frame (hr : r.Multiple n) {t : Tally} (h : t .step = t .tick * n) : r.agenda (n + 1) t = frame n := by
  have hsteps : r.agenda n t = List.replicate n .step := agenda_steps hr (by rw [h, Nat.succ_mul])
  have hfirst : r.first (t.addAll (List.replicate n .step)) = .tick := by
    rw [first_of_multiple hr, if_neg]
    simp [Tally.addAll, h, Nat.succ_mul, List.count_replicate]
  rw [agenda_add, hsteps, agenda, agenda, hfirst]
  rfl

/-- the agenda is one frame after the other. The induction is on the frames; each leaves a tally of whole frames -/
theorem agenda_reel (hr : r.Multiple n) (k : Nat) {t : Tally} (h : t .step = t .tick * n) :
    r.agenda (k * (n + 1)) t = reel k n := by
  induction k generalizing t with
  | zero =>
    rw [Nat.zero_mul]
    rfl
  | succ k ih =>
    have hnext : t.addAll (frame n) .step = t.addAll (frame n) .tick * n := by
      unfold Tally.addAll
      rw [count_step_frame, count_tick_frame, h, Nat.succ_mul]
    rw [Nat.succ_mul, Nat.add_comm, agenda_add, agenda_frame hr h, ih hnext, reel_succ]

theorem tallyAt_reel (hr : r.Multiple n) (k : Nat) :
    r.tallyAt (k / r.timer) .step = k * n ∧ r.tallyAt (k / r.timer) .tick = k := by
  have hticks : r.timer * (k / r.timer) = k := mul_div_cancel₀ _ hr.timer_pos.ne'
  have hsteps : r.cpu * (k / r.timer) = (k * n : Nat) := by
    rw [hr.cpu_eq, mul_assoc, hticks, mul_comm, Nat.cast_mul]
  constructor
  · change ⌊r.cpu * (k / r.timer)⌋.toNat = k * n
    rw [hsteps, Int.floor_natCast, Int.toNat_natCast]
  · change ⌊r.timer * (k / r.timer)⌋.toNat = k
    rw [hticks, Int.floor_natCast, Int.toNat_natCast]

/-- in the time of `k` timer beats, the beats of `k` frames become due -/
theorem pending_reel (hr : r.Multiple n) (k : Nat) : r.pending .none (k / r.timer) = reel k n := by
  obtain ⟨hsteps, hticks⟩ := tallyAt_reel hr k
  have hgap : Tally.none.gap (r.tallyAt (k / r.timer)) = k * (n + 1) := by
    unfold Tally.gap Tally.none
    rw [hsteps, hticks, Nat.sub_zero, Nat.sub_zero, Nat.mul_succ]
  rw [pending, hgap]
  exact agenda_reel hr k (by simp [Tally.none])

end Rates

/-- positive rates, one of which divides the other, are a multiple -/
theorem Config.multiple_of_dvd {c : Config} (hcpu : 0 < c.cpuHz) (htimer : 0 < c.timerHz) (hdvd : c.timerHz ∣ c.cpuHz) :
    ∃ n : Nat, (n : Int) = c.cpuHz / c.timerHz ∧ c.rates.Multiple n := by
  obtain ⟨ratio, hratio⟩ := hdvd
  have hpos : 0 < ratio := by
    rw [hratio] at hcpu
    exact pos_of_mul_pos_right hcpu htimer.le
  obtain ⟨n, rfl⟩ : ∃ n : Nat, (n : Int) = ratio := ⟨ratio.toNat, Int.toNat_of_nonneg hpos.le⟩
  refine ⟨n, ?_, Int.cast_pos.2 htimer, ?_, Int.natCast_pos.1 hpos⟩
  · rw [hratio, Int.mul_ediv_cancel_left _ htimer.ne']
  · change (c.cpuHz : Rat) = n * c.timerHz
    rw [hratio, mul_comm]
    push_cast
    rfl

/-- if an instruction fails after beats that were done, none of the beats after it is done -/
theorem Effect.forM_beat_of_fault {p : Profile} {pre post : List Beat} {s t u : State} {f : Fault}
    (hpre : forM pre (beat p) s = .ok () u) (hfault : step p u = .error f t) :
    forM (pre ++ .step :: post) (beat p) s = .error f t := by
  have hbeat : beat p .step u = .error f t := bind_eq_error.2 (.inl hfault)
  rw [List.forM_append]
  refine bind_eq_error.2 (.inr ⟨(), u, hpre, ?_⟩)
  rw [List.forM_cons]
  exact bind_eq_error.2 (.inl hbeat)

namespace Machine

/-! ## Frame after frame -/

section Frames

variable {κ : Type} {m : Machine κ} {n : Nat}

/-- beats that are done without looking at the clock do what they ask for and leave the clock -/
theorem forM_beat_apply (bs : List Beat) (m : Machine κ) :
    forM bs beat m = match forM bs (Effect.beat m.config.profile) m.state with
      | .ok _ s => .ok () { m with state := s }
      | .error f s => .error (.fault f) { m with state := s } := by
  induction bs generalizing m with
  | nil => rfl
  | cons b bs ih =>
    rw [List.forM_cons, List.forM_cons, bind_apply, bind_apply, beat_apply]
    cases Effect.beat m.config.profile b m.state with
    | ok _ s => exact ih { m with state := s }
    | error f s => rfl

theorem steps_eq (n : Nat) : (steps n : MachineM κ Unit) = forM (List.replicate n .step) beat := by
  induction n with
  | zero => rfl
  | succ n ih =>
    rw [List.replicate_succ, List.forM_cons, steps, ih]
    simp only [beat, bind_assoc, pure_bind]

/-- a frame does the beats in it -/
theorem runFrame_apply (hn : frameSteps m.config = .ok n) :
    runFrame m = (do
      forM (frame n) beat
      return n : MachineM κ Nat) m := by
  have hframe : (forM (frame n) beat : MachineM κ Unit) = (do
      steps n
      tick) := by
    rw [frame, List.forM_append, steps_eq]
    rfl
  rw [hframe]
  unfold runFrame
  rw [bind_apply, get_apply]
  simp only [hn]
  rw [bind_assoc]
  rfl

/-- frames one after the other, up to the first instruction that fails; how many instructions each of them had -/
def frames : Nat → MachineM κ (List Nat)
  | 0 => return []
  | k + 1 => do
    let n ← runFrame
    return n :: (← frames k)

/-- frames do the beats in them. The induction is on the frames; none of them touches the configuration, so all have as
many instructions -/
theorem frames_apply (hn : frameSteps m.config = .ok n) (k : Nat) :
    frames k m = (do
      forM (reel k n) beat
      return List.replicate k n : MachineM κ (List Nat)) m := by
  induction k generalizing m with
  | zero => rfl
  | succ k ih =>
    rw [frames, reel_succ, List.forM_append, bind_apply, runFrame_apply hn, bind_assoc, bind_apply, bind_apply,
      forM_beat_apply]
    cases forM (frame n) (Effect.beat m.config.profile) m.state with
    | error f s => rfl
    | ok _ s =>
      have hrest := ih (m := { m with state := s }) hn
      simp only [pure_apply, bind_apply] at hrest ⊢
      rw [hrest]
      cases forM (reel k n) beat { m with state := s } with
      | error f t => rfl
      | ok _ t => rfl

end Frames

/-! ## The time that frames take -/

variable {m : Machine Rat} {time e : Rat} {n : Nat}

/-- what is due after a span of time for a settled machine is what is ahead of it -/
theorem due_of_settled (hr : ∀ b, 0 < m.config.rates.of b) (hm : m.Settled time) (he : 0 ≤ e) :
    m.due e = m.ahead time e := by
  have hle := Rates.tallyAt_mono hr (le_add_of_nonneg_right he : time ≤ time + e)
  rw [due_eq he, Clock.scheduled, credited_of_settled hm, Rates.beatCount_clockAt, Rates.beats_clockAt hr hle]
  rfl

/-- in the time that `k` frames take, the beats of `k` frames become due -/
theorem due_reel (hr : m.config.rates.Multiple n) (hclock : m.clock = Clock.zero) (k : Nat) :
    m.due (k / m.config.timerHz) = reel k n := by
  have htime : (0 : Rat) ≤ k / m.config.timerHz := div_nonneg (Nat.cast_nonneg k) hr.timer_pos.le
  have hm : m.Settled 0 := hclock.trans (Rates.clockAt_zero _).symm
  rw [due_of_settled hr.of_pos hm htime, ahead, Rates.tallyAt_zero, zero_add]
  exact Rates.pending_reel hr k

/-- the beats of `k` frames use up the credit of the time that they take -/
theorem foldl_spend_reel (hr : m.config.rates.Multiple n) (hclock : m.clock = Clock.zero) (k : Nat) :
    (reel k n).foldl Clock.spend (m.credited (k / m.config.timerHz)).clock = Clock.zero := by
  have hticks : (k / m.config.rates.timer) * m.config.rates.timer = k := div_mul_cancel₀ _ hr.timer_pos.ne'
  have hsteps : (k / m.config.rates.timer) * m.config.rates.cpu = (k * n : Nat) := by
    rw [hr.cpu_eq, mul_left_comm, hticks, mul_comm, Nat.cast_mul]
  rw [Clock.foldl_spend, count_step_reel, count_tick_reel, credited, hclock]
  refine congrArg₂ Clock.mk ?_ ?_
  · change 0 + (k / m.config.rates.timer) * m.config.rates.cpu - (k * n : Nat) = 0
    rw [hsteps, zero_add, sub_self]
  · change 0 + (k / m.config.rates.timer) * m.config.rates.timer - k = 0
    rw [hticks, zero_add, sub_self]

/-- a frame has the instructions of one timer beat -/
theorem frameSteps_of_multiple {c : Config} (hr : c.rates.Multiple n) : frameSteps c = .ok n := by
  have htimer : 0 < c.timerHz := Int.cast_pos.1 hr.timer_pos
  have hcpu : c.cpuHz = n * c.timerHz := by
    have hcast : (c.cpuHz : Rat) = n * c.timerHz := hr.cpu_eq
    exact_mod_cast hcast
  have hdiv : c.cpuHz.fdiv c.timerHz = n := by
    rw [Int.fdiv_eq_ediv_of_nonneg _ htimer.le, hcpu, Int.mul_ediv_cancel _ htimer.ne']
  rw [frameSteps, if_neg htimer.ne', hdiv, Int.toNat_natCast, max_eq_right hr.ratio_pos]

end Machine

/-- **Frames and the time that they take do the same.** The rate of instructions is a multiple of the rate of timer beats,
and the machine owes nothing. Then `k` frames and the time of `k` timer beats both do the beats of `k` frames in their
order, and the difference is only that passing time pays for each. If no instruction fails, both end with the same
machine, which owes nothing, after `k` times the ratio of the rates instructions and `k` timer beats. If one fails, it is
the same one for both, with the same error, and it leaves the same state. -/
theorem frames_keep_time {m : Machine Rat} (hcpu : 0 < m.config.cpuHz) (htimer : 0 < m.config.timerHz)
    (hdvd : m.config.timerHz ∣ m.config.cpuHz) (hclock : m.clock = Clock.zero) (k : Nat) :
    ∃ n : Nat, (n : Int) = m.config.cpuHz / m.config.timerHz ∧
      (reel k n).count .step = k * n ∧ (reel k n).count .tick = k ∧
      Machine.frames k m = (do
        forM (reel k n) Machine.beat
        return List.replicate k n : MachineM Rat (List Nat)) m ∧
      Machine.advance (k / m.config.timerHz : Rat) m = (do
        forM (reel k n) Machine.serve
        return k * n : MachineM Rat Nat) (m.credited (k / m.config.timerHz)) ∧
      ((∃ t : Machine Rat, Machine.frames k m = .ok (List.replicate k n) t ∧
          Machine.advance (k / m.config.timerHz : Rat) m = .ok (k * n) t ∧
          forM (reel k n) (Effect.beat m.config.profile) m.state = .ok () t.state ∧
          t.state.cycles = m.state.cycles + k * n ∧ t.clock = Clock.zero) ∨
        ∃ (pre post : List Beat) (s : State) (f : Fault) (t u : Machine Rat), reel k n = pre ++ .step :: post ∧
          forM pre (Effect.beat m.config.profile) m.state = .ok () s ∧
          Effect.step m.config.profile s = .error f t.state ∧
          Machine.frames k m = .error (.fault f) t ∧
          Machine.advance (k / m.config.timerHz : Rat) m = .error (.fault f) u ∧ u.state = t.state) := by
  obtain ⟨n, hratio, hr⟩ := Config.multiple_of_dvd hcpu htimer hdvd
  have htime : (0 : Rat) ≤ k / m.config.timerHz := div_nonneg (Nat.cast_nonneg k) hr.timer_pos.le
  have hdue := Machine.due_reel hr hclock k
  have hframes := Machine.frames_apply (Machine.frameSteps_of_multiple hr) k
  refine ⟨n, hratio, count_step_reel k n, count_tick_reel k n, hframes, ?_, ?_⟩
  · rw [Machine.advance_due htime, hdue, count_step_reel]
  rcases Effect.forM_beat_cases m.config.profile m.state (reel k n) with
    ⟨s, hall⟩ | ⟨pre, post, s, f, t, hreel, hpre, hfault⟩
  · refine .inl ⟨{ m with state := s }, ?_, ?_, hall, ?_, hclock⟩
    · rw [hframes]
      refine bind_eq_ok.2 ⟨(), _, ?_, rfl⟩
      rw [Machine.forM_beat_apply, hall]
    · rw [Machine.advance_of_done htime (hdue ▸ hall), hdue, count_step_reel,
        Machine.foldl_spend_reel hr hclock, ← hclock]
    · rw [Effect.cycles_of_forM_beat hall, count_step_reel]
  · refine .inr ⟨pre, post, s, f, { m with state := t }, _, hreel, hpre, hfault, ?_,
      Machine.advance_of_fault htime (hdue.trans hreel) hpre hfault, rfl⟩
    rw [hframes]
    refine bind_eq_error.2 (.inl ?_)
    rw [Machine.forM_beat_apply, hreel, Effect.forM_beat_of_fault hpre hfault]

/-- a machine with a jump to itself, four instructions and two timer beats a second -/
def drumming : Machine Rat := { spinning with config := { spinning.config with cpuHz := 4 } }

/-- three frames, and the second and a half that they take -/
theorem drumming_keeps_time :
    ∃ t : Machine Rat, Machine.frames 3 drumming = .ok [2, 2, 2] t ∧ Machine.advance (3 / 2 : Rat) drumming = .ok 6 t ∧
      t.state.cycles = 6 ∧ t.clock = Clock.zero := by
  have htime : ((3 : Nat) : Rat) / drumming.config.timerHz = 3 / 2 := by
    change ((3 : Nat) : Rat) / ((2 : Int) : Rat) = 3 / 2
    norm_num
  obtain ⟨n, hn, -, -, -, -, hend⟩ :=
    frames_keep_time (m := drumming) (by decide) (by decide) (by decide) rfl 3
  obtain rfl : n = 2 := by
    have hratio : drumming.config.cpuHz / drumming.config.timerHz = 2 := by decide
    omega
  rw [htime] at hend
  rcases hend with ⟨t, hframes, hadvance, -, hcycles, hclock⟩ | ⟨-, -, -, f, t, -, -, -, -, hfails, -⟩
  · exact ⟨t, hframes, hadvance, hcycles, hclock⟩
  · have hok : (match Machine.frames 3 drumming with
      | .ok _ _ => true
      | .error _ _ => false) = true := by decide +kernel
    rw [hfails] at hok
    cases hok

end Chip8
