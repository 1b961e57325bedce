/-
Runs of the debugger in pieces: a run that is limited to `n` instructions, gone on with by one that is limited to `m`.
The second run looks at no breakpoint on the address it starts from, so that a run can go on from a breakpoint. The one
run that is limited to `n + m` instructions does look at it, halfway. That is all that tells the two apart.

- `runFrom_add`: a longer run goes through the place where a shorter one reached its limit.
- `runFrom_shift`: with the limit moved, a run does not depend on how many instructions it has carried out.
- `GoesOn.of_run`: a run begins with the instruction it is at, whatever breakpoints there are.
- `run_in_pieces`: both together; `pieces_pass_breakpoint` is the case in which they differ.
-/
import Chip8.Proofs.Stopping

namespace Chip8

namespace Debugger

variable {κ : Type} {limit stopDuring : Option Nat} {d e after : Debugger κ} {stop : Stop κ} {n m k fuel : Nat}

/-! ## Fuel -/

/-- a run that has ended ends the same way with more fuel -/
theorem runFrom_mono {fuel' : Nat} (hrun : runFrom limit stopDuring fuel k d = some stop) (hfuel : fuel ≤ fuel') :
    runFrom limit stopDuring fuel' k d = some stop := by
  induction fuel generalizing k d fuel' with
  | zero => cases hrun
  | succ fuel ih =>
    obtain ⟨more, rfl⟩ : ∃ more, fuel' = more + 1 := ⟨fuel' - 1, by omega⟩
    rw [runFrom_succ] at hrun ⊢
    cases hturn : d.turn limit stopDuring k with
    | inl stop' =>
      rw [hturn] at hrun
      exact hrun
    | inr after =>
      rw [hturn] at hrun
      exact ih hrun (by omega)

/-- a limited run ends, given fuel beyond its limit -/
theorem exists_runFrom_of_limit (hk : k ≤ n) (hfuel : n < k + fuel) :
    ∃ stop, runFrom (some n) stopDuring fuel k d = some stop := by
  induction fuel generalizing k d with
  | zero => exact absurd hfuel (by omega)
  | succ fuel ih =>
    rw [runFrom_succ]
    cases hturn : d.turn (some n) stopDuring k with
    | inl stop => exact ⟨stop, rfl⟩
    | inr after =>
      obtain ⟨hlimit, -⟩ := turn_eq_inr.1 hturn
      have hlt : k < n := by simpa using hlimit
      exact ih hlt (by omega)

theorem exists_run_of_limit (d : Debugger κ) (n : Nat) (stopDuring : Option Nat) :
    ∃ stop, ∀ fuel, n < fuel → d.run (some n) stopDuring fuel = some stop := by
  have hends : ∃ stop, runFrom (some n) stopDuring (n + 1) 0 { d with lastFault := none } = some stop :=
    exists_runFrom_of_limit (Nat.zero_le n) (by omega)
  obtain ⟨stop, hstop⟩ := hends
  exact ⟨stop, fun fuel hfuel => runFrom_mono hstop hfuel⟩

/-! ## Turns under another limit -/

theorem any_eq_false_of_lt (h : k < n) : (some n).any (· ≤ k) = false := decide_eq_false (not_le.2 h)

theorem any_eq_true_of_le (h : n ≤ k) : (some n).any (· ≤ k) = true := decide_eq_true h

/-- an instruction ends no run for its limit -/
theorem reason_of_stride (h : d.stride stopDuring k = .inl stop) : stop.reason ≠ .stepLimit := by
  unfold stride at h
  cases hstep : d.step with
  | error f after =>
    simp only [hstep, Sum.inl.injEq] at h
    rw [← h]
    split_ifs
    · exact nofun
    · exact nofun
  | ok ins after =>
    simp only [hstep] at h
    split_ifs at h
    · cases h
      exact nofun
    · cases h
      exact nofun

/-- a turn that ends a run for its limit is one that has reached it -/
theorem le_of_turn_stepLimit (h : d.turn (some n) stopDuring k = .inl stop) (hreason : stop.reason = .stepLimit) :
    n ≤ k := by
  by_contra hlt
  have hlimit := any_eq_false_of_lt (not_le.1 hlt)
  by_cases haddress : k ≠ 0 ∧ d.breaksAt = true
  · rw [turn_of_address hlimit haddress] at h
    cases h
    cases hreason
  · rw [turn_of_free hlimit haddress] at h
    exact reason_of_stride h hreason

/-- before its limit, a turn does not depend on it -/
theorem turn_of_lt (hn : k < n) (hm : k < m) : d.turn (some n) stopDuring k = d.turn (some m) stopDuring k := by
  have hlimit := any_eq_false_of_lt hn
  have hlimit' := any_eq_false_of_lt hm
  by_cases haddress : k ≠ 0 ∧ d.breaksAt = true
  · rw [turn_of_address hlimit haddress, turn_of_address hlimit' haddress]
  · rw [turn_of_free hlimit haddress, turn_of_free hlimit' haddress]

/-- with the limit moved, a turn does not depend on how many instructions came before it, but for a breakpoint on the
address that a run starts from -/
theorem turn_shift (h : k = 0 → n ≠ 0 → m ≠ 0 → d.breaksAt = false) :
    d.turn (some (n + m)) none (n + k) = d.turn (some m) none k := by
  rcases Nat.lt_or_ge k m with hlt | hge
  · have hlimit := any_eq_false_of_lt hlt
    have hlimit' := any_eq_false_of_lt (Nat.add_lt_add_left hlt n)
    by_cases haddress : k ≠ 0 ∧ d.breaksAt = true
    · rw [turn_of_address hlimit haddress, turn_of_address hlimit' ⟨by omega, haddress.2⟩]
    · have haddress' : ¬ (n + k ≠ 0 ∧ d.breaksAt = true) := by
        rintro ⟨hne, hbreak⟩
        have hk : k = 0 := by
          by_contra hk
          exact haddress ⟨hk, hbreak⟩
        rw [h hk (by omega) (by omega)] at hbreak
        cases hbreak
      rw [turn_of_free hlimit haddress, turn_of_free hlimit' haddress']
      -- no stop is asked for, so the count plays no part
      unfold stride
      simp only [reduceCtorEq]
  · rw [turn_of_limit (any_eq_true_of_le hge), turn_of_limit (any_eq_true_of_le (Nat.add_le_add_left hge n))]

/-! ## Runs under another limit -/

/-- a run that goes on to a longer limit goes through the place where it would have reached a shorter one; there are
neither notices nor a new last fault by then. The induction is on the turns up to that place -/
theorem runFrom_add (hrun : runFrom (some n) none fuel k d = some stop) (hreason : stop.reason = .stepLimit)
    (hk : k ≤ n) (m more : Nat) :
    runFrom (some (n + m)) none (n - k + more) k d = runFrom (some (n + m)) none more n stop.debugger ∧
      stop.debugger.lastFault = d.lastFault ∧ stop.debugger.breakpoints = d.breakpoints := by
  induction fuel generalizing k d with
  | zero => cases hrun
  | succ fuel ih =>
    rw [runFrom_succ] at hrun
    rcases hk.lt_or_eq with hlt | rfl
    · cases hturn : d.turn (some n) none k with
      | inl stop' =>
        rw [hturn] at hrun
        cases hrun
        exact absurd (le_of_turn_stepLimit hturn hreason) (by omega)
      | inr after =>
        rw [hturn] at hrun
        obtain ⟨-, -, ins, hstep, -⟩ := turn_eq_inr.1 hturn
        obtain ⟨-, hbreakpoints, hfault⟩ := machine_of_step_ok hstep
        obtain ⟨hrest, hfault', hbreakpoints'⟩ := ih hrun hlt
        refine ⟨?_, hfault'.trans hfault, hbreakpoints'.trans hbreakpoints⟩
        rw [show n - k + more = n - (k + 1) + more + 1 by omega, runFrom_succ,
          ← turn_of_lt hlt (by omega : k < n + m), hturn]
        exact hrest
    · rw [turn_of_limit (any_eq_true_of_le (le_refl k))] at hrun
      cases hrun
      rw [Nat.sub_self, Nat.zero_add]
      exact ⟨rfl, rfl, rfl⟩

/-- a run under a limit that is as much larger as the number of instructions carried out goes the same way -/
theorem runFrom_shift (h : k = 0 → n ≠ 0 → m ≠ 0 → d.breaksAt = false) (fuel : Nat) :
    runFrom (some (n + m)) none fuel (n + k) d = runFrom (some m) none fuel k d := by
  induction fuel generalizing k d with
  | zero => rfl
  | succ fuel ih =>
    rw [runFrom_succ, runFrom_succ, turn_shift h]
    cases d.turn (some m) none k with
    | inl stop => rfl
    | inr after =>
      -- from the second turn on, both look at breakpoints on the address
      exact ih (k := k + 1) fun hzero => absurd hzero (Nat.succ_ne_zero k)

/-! ## The two runs at the cut -/

theorem run_of_no_fault (hfault : d.lastFault = none) (limit stopDuring : Option Nat) (fuel : Nat) :
    d.run limit stopDuring fuel = runFrom limit stopDuring fuel 0 d := by
  have hsame : { d with lastFault := none } = d := by
    rw [← hfault]
  rw [run, hsame]

variable {second whole : Stop κ}

/-- without a breakpoint on the address at the cut, the second piece ends as the rest of the longer run does -/
theorem second_eq_whole (hfault : d.lastFault = none) (hfree : n ≠ 0 → m ≠ 0 → d.breaksAt = false)
    (hsecond : d.run (some m) none (m + 1) = some second)
    (hwhole : runFrom (some (n + m)) none (m + 1) n d = some whole) : second = whole := by
  have hshift : runFrom (some (n + m)) none (m + 1) n d = runFrom (some m) none (m + 1) 0 d :=
    runFrom_shift (k := 0) (fun _ => hfree) (m + 1)
  rw [run_of_no_fault hfault, ← hshift, hwhole] at hsecond
  exact (Option.some.inj hsecond).symm

/-- with one, the longer run ends at the cut -/
theorem whole_of_breaksAt (hn : 1 ≤ n) (hm : 1 ≤ m) (hbreak : d.breaksAt = true)
    (hwhole : runFrom (some (n + m)) none (m + 1) n d = some whole) :
    whole.reason = .breakpoint ∧ whole.debugger = d := by
  have hlimit : (some (n + m)).any (· ≤ n) = false := any_eq_false_of_lt (by omega)
  rw [runFrom_succ, turn_of_address hlimit ⟨by omega, hbreak⟩] at hwhole
  rw [← Option.some.inj hwhole]
  exact ⟨rfl, rfl⟩

/-! ## The first turn of a run -/

/-- from a well-formed processor, a run leads to a well-formed processor -/
theorem wellFormed_of_runFrom (hd : d.cpu.WellFormed) (hrun : runFrom limit stopDuring fuel k d = some stop) :
    stop.debugger.cpu.WellFormed := by
  induction fuel generalizing k d with
  | zero => cases hrun
  | succ fuel ih =>
    have hkeeps := keeps_step (κ := κ) (Cpu.WellFormed.step d.machine.config.profile)
    rcases runFrom_cases hrun with
      ⟨-, rfl⟩ | ⟨-, -, rfl⟩ | ⟨-, -, ⟨f, after, hstep, -, rfl⟩ | ⟨f, after, hstep, -, rfl⟩ | ⟨ins, after, hstep, hok⟩⟩
    · exact hd
    · exact hd
    · exact (hkeeps.error ⟨rfl, hd⟩ hstep).2
    · exact (hkeeps.error ⟨rfl, hd⟩ hstep).2
    · have hafter := (hkeeps.ok ⟨rfl, hd⟩ hstep).2
      rcases hok with ⟨-, rfl⟩ | ⟨-, -, rfl⟩ | ⟨-, -, hrest⟩
      · exact hafter
      · exact hafter
      · exact ih hafter hrest

/-- a run of `d` limited to `m` instructions carries out the one that `d` is at, and then goes on. A fault of the
instruction ends the run and is its last fault, a breakpoint on a register may end it behind the instruction, and
otherwise the run is the rest of one that has carried out one instruction by then -/
structure GoesOn (d : Debugger κ) (m : Nat) (stop : Stop κ) : Prop where
  fault : ∀ f after, d.step = .error f after →
    stop.reason = .fault ∧ stop.debugger = { after with lastFault := some f }
  register : ∀ ins after, d.step = .ok ins after → after.breaksAfter d.cpu = true →
    stop.reason = .breakpoint ∧ stop.debugger = after
  rest : ∀ ins after, d.step = .ok ins after → after.breaksAfter d.cpu = false → ∀ fuel, m ≤ fuel →
    runFrom (some m) none fuel 1 after = some stop

theorem GoesOn.of_run (hd : d.cpu.WellFormed) (hfault : d.lastFault = none) (hm : 1 ≤ m)
    (hrun : ∀ fuel, m < fuel → d.run (some m) none fuel = some stop) : d.GoesOn m stop := by
  have hturn : d.turn (some m) none 0 = d.stride none 0 :=
    turn_of_free (any_eq_false_of_lt hm) fun h => h.1 rfl
  have hfirst (fuel : Nat) (hfuel : m ≤ fuel) :
      (d.stride none 0).elim some (runFrom (some m) none fuel 1) = some stop := by
    rw [← hrun (fuel + 1) (by omega), run_of_no_fault hfault, runFrom_succ, hturn]
  constructor
  · intro f after hstep
    have hend := hfirst m le_rfl
    simp only [stride, hstep, if_pos (byProgram_of_debuggerStep hd hstep), Sum.elim_inl, Option.some.injEq] at hend
    rw [← hend]
    exact ⟨rfl, rfl⟩
  · intro ins after hstep hregister
    have hend := hfirst m le_rfl
    simp only [stride, hstep, if_pos hregister, Sum.elim_inl, Option.some.injEq] at hend
    rw [← hend]
    exact ⟨rfl, rfl⟩
  · intro ins after hstep hregister fuel hfuel
    have hgo : d.stride none 0 = .inr after := stride_eq_inr.2 ⟨ins, hstep, hregister, nofun⟩
    have hend := hfirst fuel hfuel
    rwa [hgo] at hend

end Debugger

/-! ## Pieces -/

/-- **A run cut in two, but for a breakpoint at the cut.** A run reaches a limit of `n` instructions, and a run limited
to `m` goes on from there. If there is no enabled breakpoint on the address at the cut, or if one of the two limits is
zero, then both together end as the run limited to `n + m` does: with the same reason and the same debugger, which is
its machine, trace and last fault. If there is such a breakpoint, the run limited to `n + m` ends at the cut, because of
it, and leaves what the first piece left, while the second piece carries out the instruction at the breakpoint and goes
on from there; that the processor is well-formed only matters for the fault of that instruction. -/
theorem run_in_pieces {κ : Type} {d : Debugger κ} {n fuel : Nat} {first : Debugger.Stop κ}
    (hrun : d.run (some n) none fuel = some first) (hreason : first.reason = .stepLimit) (m : Nat) :
    ∃ second whole : Debugger.Stop κ,
      (∀ fuel, m < fuel → first.debugger.run (some m) none fuel = some second) ∧
      (∀ fuel, n + m < fuel → d.run (some (n + m)) none fuel = some whole) ∧
      (¬ (1 ≤ n ∧ 1 ≤ m ∧ ∃ b ∈ d.breakpoints, b.AsksAddress first.debugger.machine.state.cpu) →
        second.reason = whole.reason ∧ second.debugger = whole.debugger) ∧
      (1 ≤ n ∧ 1 ≤ m ∧ (∃ b ∈ d.breakpoints, b.AsksAddress first.debugger.machine.state.cpu) →
        whole.reason = .breakpoint ∧ whole.debugger = first.debugger ∧
          (d.cpu.WellFormed → first.debugger.GoesOn m second)) := by
  obtain ⟨second, hsecond⟩ := first.debugger.exists_run_of_limit m none
  obtain ⟨whole, hwhole⟩ := d.exists_run_of_limit (n + m) none
  obtain ⟨hthrough, hfault, hbreakpoints⟩ := Debugger.runFrom_add hrun hreason (Nat.zero_le n) m (m + 1)
  have hcut : Debugger.runFrom (some (n + m)) none (m + 1) n first.debugger = some whole := by
    have hlast := hwhole (n + m + 1) (Nat.lt_succ_self _)
    rw [Debugger.run, show n + m + 1 = n - 0 + (m + 1) by omega, hthrough] at hlast
    exact hlast
  have hasks : first.debugger.breaksAt = true ↔
      ∃ b ∈ d.breakpoints, b.AsksAddress first.debugger.machine.state.cpu := by
    rw [Debugger.breaksAt_iff, hbreakpoints]
  refine ⟨second, whole, hsecond, hwhole, fun hfree => ?_, fun ⟨hn, hm, hb⟩ => ?_⟩
  · have hclear (hn : n ≠ 0) (hm : m ≠ 0) : first.debugger.breaksAt = false := by
      rw [← Bool.not_eq_true, hasks]
      exact fun hb => hfree ⟨by omega, by omega, hb⟩
    rw [Debugger.second_eq_whole hfault hclear (hsecond (m + 1) (Nat.lt_succ_self m)) hcut]
    exact ⟨rfl, rfl⟩
  · obtain ⟨hreason', hdebugger⟩ := Debugger.whole_of_breaksAt hn hm (hasks.2 hb) hcut
    refine ⟨hreason', hdebugger, fun hd => Debugger.GoesOn.of_run ?_ hfault hm hsecond⟩
    have hstart : Debugger.cpu { d with lastFault := none } |>.WellFormed := hd
    exact Debugger.wellFormed_of_runFrom hstart hrun

/-- the small machine with a breakpoint after its one instruction -/
def Debugger.watched : Debugger Rat where
  machine := .small
  breakpoints := [{ kind := .pc, value := some 82 }]

/-- the small machine without breakpoints: two pieces of one instruction each end as one run of two does -/
theorem unwatched_run_in_pieces :
    ∃ first second whole : Debugger.Stop Rat,
      Debugger.run (some 1) none 2 { machine := .small } = some first ∧ first.reason = .stepLimit ∧
        first.debugger.run (some 1) none 2 = some second ∧
        Debugger.run (some 2) none 3 { machine := .small } = some whole ∧ second.reason = whole.reason := by
  have hreason : (Debugger.run (some 1) none 2 { machine := .small }).map Debugger.Stop.reason = some .stepLimit := by
    decide +kernel
  obtain ⟨first, hfirst, hlimit⟩ := Option.map_eq_some_iff.1 hreason
  obtain ⟨second, whole, hsecond, hwhole, hfree, -⟩ := run_in_pieces hfirst hlimit 1
  refine ⟨first, second, whole, hfirst, hlimit, hsecond 2 (by decide), hwhole 3 (by decide), (hfree ?_).1⟩
  rintro ⟨-, -, b, hb, -⟩
  exact absurd hb List.not_mem_nil

/-- a run of one instruction reaches its limit at a breakpoint, and the next run of one instruction goes on from there
and fails; one run of two instructions ends at the breakpoint -/
theorem pieces_pass_breakpoint :
    Config.ofValue Config.smallDocument = (.ok .small, []) ∧ Machine.create .small = .ok Debugger.watched.machine ∧
      ∃ first second whole : Debugger.Stop Rat,
        Debugger.watched.run (some 1) none 2 = some first ∧ first.reason = .stepLimit ∧
          first.debugger.run (some 1) none 2 = some second ∧ second.reason = .fault ∧
          Debugger.watched.run (some (1 + 1)) none 3 = some whole ∧ whole.reason = .breakpoint ∧
          second.reason ≠ whole.reason ∧ second.debugger.lastFault ≠ whole.debugger.lastFault := by
  have hpieces : (do
      let first ← Debugger.watched.run (some 1) none 2
      let second ← first.debugger.run (some 1) none 2
      let whole ← Debugger.watched.run (some (1 + 1)) none 3
      return (first.reason, second.reason, whole.reason, second.debugger.lastFault, whole.debugger.lastFault)) =
        some (.stepLimit, .fault, .breakpoint, some (.addressOutOfBounds 83 82), none) := by
    decide +kernel
  obtain ⟨first, hfirst, h⟩ := Option.bind_eq_some_iff.1 hpieces
  obtain ⟨second, hsecond, h⟩ := Option.bind_eq_some_iff.1 h
  obtain ⟨whole, hwhole, h⟩ := Option.bind_eq_some_iff.1 h
  simp only [Option.pure_def, Option.some.injEq, Prod.mk.injEq] at h
  obtain ⟨hreason, hreason', hreason'', hfault, hfault'⟩ := h
  refine ⟨rfl, Machine.create_small, first, second, whole, hfirst, hreason, hsecond, hreason', hwhole, hreason'', ?_,
    ?_⟩
  · rw [hreason', hreason'']
    decide
  · rw [hfault, hfault']
    decide

end Chip8
