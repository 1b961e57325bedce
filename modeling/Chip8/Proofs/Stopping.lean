/-
Where a run of the debugger stops, and what it says about it. `Machine.path m k` is the machine after `k` instructions.
Five causes can end a run after `k` of them (`Debugger.Holds`); a run ends with the least `k` at which one holds, and of
several that hold there the first in order is the reason (`Debugger.Ends`). A cause is looked at in one place of a turn
only (`Debugger.turn`), some before the instruction and some after it, so a run is followed with what has been ruled out
so far (`Debugger.Underway`).

- `runFrom_ends`: a run that ends does so at the first cause.
- `runFrom_endless`: a run that has not ended has met no cause.
- `run_ends_at_first_cause`: both together, and what the run leaves.
-/
import Chip8.Proofs.Bounds

namespace Chip8

open Act

/-! ## Breakpoints as conditions -/

namespace Register

theorem mem_all (r : Register) : r ∈ all := by
  cases r with
  | v x => simp [all, general]
  | _ => simp [all]

theorem name_injective {r q : Register} (h : r.name = q.name) : r = q := by
  have hnames : (all.map name).Nodup := by decide
  exact List.inj_on_of_nodup_map hnames (mem_all r) (mem_all q) h

theorem ofName?_eq_some {n : String} {r : Register} : ofName? n = some r ↔ n = r.name := by
  constructor
  · intro h
    have hname := List.find?_some h
    exact (beq_iff_eq.1 hname).symm
  · rintro rfl
    have hfound : (ofName? r.name).isSome = true :=
      List.find?_isSome.2 ⟨r, mem_all r, beq_self_eq_true _⟩
    obtain ⟨q, hq⟩ := Option.isSome_iff_exists.1 hfound
    have hname := List.find?_some hq
    rw [hq, name_injective (beq_iff_eq.1 hname)]

end Register

namespace Breakpoint

/-- an enabled breakpoint on the value that its register has -/
def AsksValue (b : Breakpoint) (c : Cpu) : Prop :=
  b.enabled = true ∧ b.kind = .registerValue ∧ ∃ r : Register, b.register = some r.name ∧ b.value = some (r.value c)

/-- an enabled breakpoint on a register that the latest instruction changed -/
def AsksChange (b : Breakpoint) (before after : Cpu) : Prop :=
  b.enabled = true ∧ b.kind = .registerChange ∧
    ∃ r : Register, b.register = some r.name ∧ r.value before ≠ r.value after

/-- an enabled breakpoint on the address that the processor is at -/
def AsksAddress (b : Breakpoint) (c : Cpu) : Prop :=
  b.enabled = true ∧ b.kind = .pc ∧ b.value = some (c.pc : Int)

theorem holdsAt_iff {b : Breakpoint} {c : Cpu} : b.holdsAt c = true ↔ b.AsksAddress c := by
  simp only [holdsAt, AsksAddress, Bool.and_eq_true, decide_eq_true_eq, and_assoc]

theorem holdsAfter_iff {b : Breakpoint} {before after : Cpu} :
    b.holdsAfter before after = true ↔ b.AsksValue after ∨ b.AsksChange before after := by
  unfold holdsAfter AsksValue AsksChange
  rw [Bool.and_eq_true]
  cases hr : b.register.bind Register.ofName? with
  | none =>
    -- a name that no register has is the name of none
    have hnone (r : Register) : b.register ≠ some r.name := by
      intro h
      rw [h, Option.bind_some, Register.ofName?_eq_some.2 rfl] at hr
      cases hr
    constructor
    · rintro ⟨-, h⟩
      cases h
    · rintro (⟨-, -, r, h, -⟩ | ⟨-, -, r, h, -⟩)
      · exact absurd h (hnone r)
      · exact absurd h (hnone r)
  | some r =>
    obtain ⟨n, hn, hname⟩ := Option.bind_eq_some_iff.1 hr
    obtain rfl := Register.ofName?_eq_some.1 hname
    have honly {q : Register} (h : b.register = some q.name) : q = r :=
      Register.name_injective (Option.some.inj (h.symm.trans hn))
    cases hkind : b.kind with
    | pc => simp
    | registerValue =>
      simp only [decide_eq_true_eq, true_and, reduceCtorEq, false_and, and_false, or_false]
      refine and_congr_right fun _ => ⟨fun h => ⟨r, hn, h⟩, ?_⟩
      rintro ⟨q, hq, h⟩
      rwa [honly hq] at h
    | registerChange =>
      simp only [decide_eq_true_eq, true_and, reduceCtorEq, false_and, and_false, false_or]
      refine and_congr_right fun _ => ⟨fun h => ⟨r, hn, h.symm⟩, ?_⟩
      rintro ⟨q, hq, h⟩
      rw [honly hq] at h
      exact h.symm

end Breakpoint

/-! ## Instructions one after the other -/

namespace Machine

variable {κ : Type}

theorem step_apply (m : Machine κ) :
    step m = match Effect.step m.config.profile m.state with
      | .ok ins s => .ok ins { m with state := s }
      | .error f s => .error (.fault f) { m with state := s } := by
  simp only [step, bind_apply, get_apply, act]
  cases Effect.step m.config.profile m.state <;> rfl

/-- an instruction acts on the state of a machine, and on nothing else of it -/
theorem left_step (m : Machine κ) :
    left step m = { m with state := left (Effect.step m.config.profile) m.state } := by
  unfold left
  rw [step_apply]
  cases Effect.step m.config.profile m.state <;> rfl

theorem step_of_clear {m : Machine κ} (h : m.state.obstacle? m.config.profile = none) :
    step m = .ok m.state.instruction { m with state := m.state.next m.config.profile } := by
  rw [step_apply, Effect.step_eq, h]

theorem step_of_obstacle {m : Machine κ} {f : Fault} (h : m.state.obstacle? m.config.profile = some f) :
    step m = .error (.fault f) { m with state := m.state.halted } := by
  rw [step_apply, Effect.step_eq, h]

/-- the machine after so many instructions; one that fails leaves what it leaves -/
def path (m : Machine κ) : Nat → Machine κ
  | 0 => m
  | k + 1 => left step (m.path k)

end Machine

namespace Debugger

variable {κ : Type}

/-- an instruction under the debugger is an instruction of the machine; breakpoints and last fault stay -/
theorem machine_of_step_ok {d after : Debugger κ} {ins : Instruction} (h : d.step = .ok ins after) :
    Machine.step d.machine = .ok ins after.machine ∧ after.breakpoints = d.breakpoints ∧
      after.lastFault = d.lastFault := by
  rw [step_eq] at h
  rw [Machine.step_apply]
  cases hs : Effect.step d.machine.config.profile d.machine.state with
  | ok ins' s =>
    rw [hs] at h
    cases h
    exact ⟨rfl, rfl, rfl⟩
  | error f s =>
    rw [hs] at h
    cases h

theorem machine_of_step_error {d after : Debugger κ} {f : Fault} (h : d.step = .error f after) :
    Machine.step d.machine = .error (.fault f) after.machine ∧ after.breakpoints = d.breakpoints := by
  rw [step_eq] at h
  rw [Machine.step_apply]
  cases hs : Effect.step d.machine.config.profile d.machine.state with
  | ok ins s =>
    rw [hs] at h
    cases h
  | error g s =>
    rw [hs] at h
    cases h
    exact ⟨rfl, rfl⟩

theorem breaksAt_iff {d : Debugger κ} : d.breaksAt = true ↔ ∃ b ∈ d.breakpoints, b.AsksAddress d.machine.state.cpu := by
  simp only [breaksAt, List.any_eq_true, Breakpoint.holdsAt_iff]
  rfl

theorem breaksAfter_iff {d : Debugger κ} {before : Cpu} :
    d.breaksAfter before = true ↔
      ∃ b ∈ d.breakpoints, b.AsksValue d.machine.state.cpu ∨ b.AsksChange before d.machine.state.cpu := by
  simp only [breaksAfter, List.any_eq_true, Breakpoint.holdsAfter_iff]
  rfl

/-! ## One turn of a run -/

/-- what the next instruction of a run comes to that has carried out `executed` of them: the end of the run, or the
debugger that it goes on with -/
def stride (stopDuring : Option Nat) (executed : Nat) (d : Debugger κ) : Stop κ ⊕ Debugger κ :=
  match d.step with
  | .error f after =>
    .inl (if f.byProgram then ⟨.fault, [.faulted d.cpu.pc f], { after with lastFault := some f }⟩
      else ⟨.unhandled f, [], after⟩)
  | .ok _ after =>
    if after.breaksAfter d.cpu then .inl ⟨.breakpoint, [.breakpointHit after.cpu.pc], after⟩
    else if stopDuring = some (executed + 1) then .inl ⟨.stopped, [], after⟩
    else .inr after

/-- what one turn of a run comes to: the limit and the breakpoints on the address, and then the next instruction -/
def turn (limit stopDuring : Option Nat) (executed : Nat) (d : Debugger κ) : Stop κ ⊕ Debugger κ :=
  if limit.any (· ≤ executed) then .inl ⟨.stepLimit, [], d⟩
  else if executed ≠ 0 ∧ d.breaksAt then .inl ⟨.breakpoint, [.breakpointHit d.cpu.pc], d⟩
  else d.stride stopDuring executed

section Turns

variable {limit stopDuring : Option Nat} {executed : Nat} {d after : Debugger κ}

theorem turn_of_limit (h : limit.any (· ≤ executed) = true) :
    d.turn limit stopDuring executed = .inl ⟨.stepLimit, [], d⟩ := by
  unfold turn
  rw [if_pos h]

theorem turn_of_address (hlimit : limit.any (· ≤ executed) = false) (h : executed ≠ 0 ∧ d.breaksAt = true) :
    d.turn limit stopDuring executed = .inl ⟨.breakpoint, [.breakpointHit d.cpu.pc], d⟩ := by
  unfold turn
  rw [if_neg (ne_true_of_eq_false hlimit), if_pos h]

theorem turn_of_free (hlimit : limit.any (· ≤ executed) = false) (h : ¬ (executed ≠ 0 ∧ d.breaksAt = true)) :
    d.turn limit stopDuring executed = d.stride stopDuring executed := by
  unfold turn
  rw [if_neg (ne_true_of_eq_false hlimit), if_neg h]

/-- a run is one turn after the other -/
theorem runFrom_succ (limit stopDuring : Option Nat) (fuel executed : Nat) (d : Debugger κ) :
    runFrom limit stopDuring (fuel + 1) executed d =
      (d.turn limit stopDuring executed).elim some (runFrom limit stopDuring fuel (executed + 1)) := by
  unfold turn stride
  rw [runFrom]
  by_cases hlimit : limit.any (· ≤ executed) = true
  · rw [if_pos hlimit, if_pos hlimit]
    rfl
  by_cases haddress : executed ≠ 0 ∧ d.breaksAt = true
  · rw [if_neg hlimit, if_pos haddress, if_neg hlimit, if_pos haddress]
    rfl
  rw [if_neg hlimit, if_neg haddress, if_neg hlimit, if_neg haddress]
  cases d.step with
  | error f after =>
    simp only
    split_ifs <;> rfl
  | ok ins after =>
    simp only
    split_ifs <;> rfl

/-- a run goes past an instruction if that succeeds and nothing stops the run after it -/
theorem stride_eq_inr :
    d.stride stopDuring executed = .inr after ↔
      ∃ ins, d.step = .ok ins after ∧ after.breaksAfter d.cpu = false ∧ stopDuring ≠ some (executed + 1) := by
  unfold stride
  cases hstep : d.step with
  | error f rest => simp
  | ok ins rest =>
    by_cases hregister : rest.breaksAfter d.cpu = true
    · simp only [if_pos hregister, reduceCtorEq, false_iff]
      rintro ⟨ins', ⟨⟩, hno, -⟩
      rw [hregister] at hno
      cases hno
    by_cases hstop : stopDuring = some (executed + 1)
    · simp [hregister, hstop]
    · simp only [if_neg hregister, if_neg hstop, Sum.inr.injEq]
      constructor
      · rintro rfl
        exact ⟨ins, rfl, eq_false_of_ne_true hregister, hstop⟩
      · rintro ⟨ins', ⟨⟩, -, -⟩
        rfl

/-- a run goes past a turn if nothing stops it before the instruction, in it or after it -/
theorem turn_eq_inr :
    d.turn limit stopDuring executed = .inr after ↔
      limit.any (· ≤ executed) = false ∧ ¬ (executed ≠ 0 ∧ d.breaksAt = true) ∧
        ∃ ins, d.step = .ok ins after ∧ after.breaksAfter d.cpu = false ∧ stopDuring ≠ some (executed + 1) := by
  rw [← stride_eq_inr]
  cases hlimit : limit.any (· ≤ executed) with
  | true => simp [turn_of_limit hlimit]
  | false =>
    by_cases haddress : executed ≠ 0 ∧ d.breaksAt = true
    · simp [turn_of_address hlimit haddress, haddress]
    · simp [turn_of_free hlimit haddress, haddress]

end Turns

/-! ## Causes -/

/-- what can end a run -/
inductive Cause where
  /-- a breakpoint on a register -/
  | register
  /-- a stop asked for during the latest instruction -/
  | stop
  | limit
  /-- a breakpoint on the address that the processor is at -/
  | address
  /-- the next instruction fails -/
  | fault
  deriving DecidableEq, Repr

/-- the place of a cause in the order in which one comes before another -/
def Cause.rank : Cause → Nat
  | register => 1
  | stop => 2
  | limit => 3
  | address => 4
  | fault => 5

/-- a run of `d` has the cause to end after `k` instructions -/
def Holds (d : Debugger κ) (limit stopDuring : Option Nat) (k : Nat) : Cause → Prop
  | .register => 1 ≤ k ∧ ∃ b ∈ d.breakpoints, b.AsksValue (d.machine.path k).state.cpu ∨
      b.AsksChange (d.machine.path (k - 1)).state.cpu (d.machine.path k).state.cpu
  | .stop => 1 ≤ k ∧ stopDuring = some k
  | .limit => ∃ n, limit = some n ∧ n ≤ k
  | .address => 1 ≤ k ∧ ∃ b ∈ d.breakpoints, b.AsksAddress (d.machine.path k).state.cpu
  | .fault => ∃ f t, Machine.step (d.machine.path k) = .error f t

/-- the first cause to end a run of `d` is `c`, after `k` instructions -/
structure Ends (d : Debugger κ) (limit stopDuring : Option Nat) (k : Nat) (c : Cause) : Prop where
  holds : d.Holds limit stopDuring k c
  earliest : ∀ j < k, ∀ c', ¬ d.Holds limit stopDuring j c'
  foremost : ∀ c', c'.rank < c.rank → ¬ d.Holds limit stopDuring k c'

/-- what a run of `d` leaves that ends after `k` instructions for a cause: its reason, its machine, its last fault and
its notices -/
def Leaves (d : Debugger κ) (k : Nat) (stop : Stop κ) : Cause → Prop
  | .register | .address =>
    stop.reason = .breakpoint ∧ stop.debugger.machine = d.machine.path k ∧ stop.debugger.lastFault = none ∧
      stop.notices = [.breakpointHit (d.machine.path k).state.cpu.pc]
  | .stop =>
    stop.reason = .stopped ∧ stop.debugger.machine = d.machine.path k ∧ stop.debugger.lastFault = none ∧
      stop.notices = []
  | .limit =>
    stop.reason = .stepLimit ∧ stop.debugger.machine = d.machine.path k ∧ stop.debugger.lastFault = none ∧
      stop.notices = []
  | .fault =>
    ∃ f t, Machine.step (d.machine.path k) = .error (.fault f) t ∧ stop.reason = .fault ∧ stop.debugger.machine = t ∧
      stop.debugger.lastFault = some f ∧ stop.notices = [.faulted (d.machine.path k).state.cpu.pc f]

theorem Cause.rank_injective {c c' : Cause} (h : c.rank = c'.rank) : c = c' := by
  cases c <;> cases c' <;> first | rfl | cases h

/-- a run has one end only -/
theorem Ends.unique {d : Debugger κ} {limit stopDuring : Option Nat} {k k' : Nat} {c c' : Cause}
    (h : d.Ends limit stopDuring k c) (h' : d.Ends limit stopDuring k' c') : k = k' ∧ c = c' := by
  have hk : k = k' := by
    rcases Nat.lt_trichotomy k k' with hlt | heq | hgt
    · exact absurd h.holds (h'.earliest k hlt c)
    · exact heq
    · exact absurd h'.holds (h.earliest k' hgt c')
  subst hk
  refine ⟨rfl, Cause.rank_injective ?_⟩
  rcases Nat.lt_trichotomy c.rank c'.rank with hlt | heq | hgt
  · exact absurd h.holds (h'.foremost c hlt)
  · exact heq
  · exact absurd h'.holds (h.foremost c' hgt)

/-! ## A run followed -/

/-- `e` is where a run of `d` is that has carried out `k` instructions and not ended: no earlier place had a cause, and
here there is none of those that are looked at after an instruction -/
structure Underway (d : Debugger κ) (limit stopDuring : Option Nat) (k : Nat) (e : Debugger κ) : Prop where
  machine : e.machine = d.machine.path k
  breakpoints : e.breakpoints = d.breakpoints
  lastFault : e.lastFault = none
  timers : e.cpu.WellFormed
  earlier : ∀ j < k, ∀ c, ¬ d.Holds limit stopDuring j c
  no_register : ¬ d.Holds limit stopDuring k .register
  no_stop : ¬ d.Holds limit stopDuring k .stop

variable {d e after : Debugger κ} {limit stopDuring : Option Nat} {k : Nat} {ins : Instruction} {f : Fault}

theorem Underway.start (hd : d.cpu.WellFormed) : Underway d limit stopDuring 0 { d with lastFault := none } := by
  refine ⟨rfl, rfl, rfl, hd, fun j hj => absurd hj (Nat.not_lt_zero j), ?_, ?_⟩
  · rintro ⟨hpos, -⟩
    exact absurd hpos (by omega)
  · rintro ⟨hpos, -⟩
    exact absurd hpos (by omega)

namespace Underway

variable (h : Underway d limit stopDuring k e)
include h

theorem cpu : e.cpu = (d.machine.path k).state.cpu := congrArg (fun m : Machine κ => m.state.cpu) h.machine

theorem limit_iff : limit.any (· ≤ k) = true ↔ d.Holds limit stopDuring k .limit := by
  simp only [Holds, Option.any_eq_true_iff_get, decide_eq_true_eq]
  constructor
  · rintro ⟨hsome, hle⟩
    exact ⟨_, (Option.some_get hsome).symm, hle⟩
  · rintro ⟨n, rfl, hle⟩
    exact ⟨rfl, hle⟩

theorem address_iff : (k ≠ 0 ∧ e.breaksAt = true) ↔ d.Holds limit stopDuring k .address := by
  rw [breaksAt_iff, h.breakpoints, h.machine]
  exact and_congr_left fun _ => Nat.one_le_iff_ne_zero.symm

theorem machine_of_ok (hstep : e.step = .ok ins after) : after.machine = d.machine.path (k + 1) := by
  obtain ⟨hm, -⟩ := machine_of_step_ok hstep
  rw [h.machine] at hm
  exact (left_of_ok hm).symm

theorem register_iff (hstep : e.step = .ok ins after) :
    after.breaksAfter e.cpu = true ↔ d.Holds limit stopDuring (k + 1) .register := by
  obtain ⟨-, hbreakpoints, -⟩ := machine_of_step_ok hstep
  rw [breaksAfter_iff, hbreakpoints, h.breakpoints, h.machine_of_ok hstep, h.cpu]
  exact ⟨fun hb => ⟨by omega, hb⟩, fun hb => hb.2⟩

theorem no_fault (hstep : e.step = .ok ins after) : ¬ d.Holds limit stopDuring k .fault := by
  rintro ⟨g, t, hg⟩
  obtain ⟨hm, -⟩ := machine_of_step_ok hstep
  rw [h.machine, hg] at hm
  cases hm

theorem fault (hstep : e.step = .error f after) :
    Machine.step (d.machine.path k) = .error (.fault f) after.machine := by
  rw [← h.machine]
  exact (machine_of_step_error hstep).1

/-- the run has come to its end here if there is a cause that is looked at before an instruction -/
theorem ends {c : Cause} (hc : d.Holds limit stopDuring k c)
    (hbefore : ∀ c', 3 ≤ c'.rank → c'.rank < c.rank → ¬ d.Holds limit stopDuring k c') :
    d.Ends limit stopDuring k c := by
  refine ⟨hc, h.earlier, fun c' hlt => ?_⟩
  cases c' with
  | register => exact h.no_register
  | stop => exact h.no_stop
  | limit => exact hbefore .limit (le_refl 3) hlt
  | address => exact hbefore .address (by decide) hlt
  | fault => exact hbefore .fault (by decide) hlt

theorem ends_of_limit (hlimit : limit.any (· ≤ k) = true) : d.Ends limit stopDuring k .limit := by
  refine h.ends (h.limit_iff.1 hlimit) ?_
  intro c' hge hlt
  exact absurd hlt (not_lt.2 hge)

section Limit

variable (hlimit : limit.any (· ≤ k) = false)
include hlimit

theorem no_limit : ¬ d.Holds limit stopDuring k .limit := by
  rw [← h.limit_iff, hlimit]
  exact Bool.false_ne_true

theorem ends_of_address (haddress : k ≠ 0 ∧ e.breaksAt = true) : d.Ends limit stopDuring k .address := by
  refine h.ends (h.address_iff.1 haddress) ?_
  intro c' hge hlt
  obtain rfl : c' = .limit := Cause.rank_injective (le_antisymm (Nat.le_of_lt_succ hlt) hge)
  exact h.no_limit hlimit

theorem ends_of_fault (haddress : ¬ (k ≠ 0 ∧ e.breaksAt = true)) (hstep : e.step = .error f after) :
    d.Ends limit stopDuring k .fault := by
  refine h.ends ⟨_, _, h.fault hstep⟩ ?_
  intro c' hge hlt
  cases c' with
  | limit => exact h.no_limit hlimit
  | address => rwa [← h.address_iff]
  | fault => exact absurd hlt (lt_irrefl _)
  | _ => exact absurd hge (by decide)

end Limit

section Step

variable (hlimit : limit.any (· ≤ k) = false) (haddress : ¬ (k ≠ 0 ∧ e.breaksAt = true))
  (hstep : e.step = .ok ins after)
include hlimit haddress hstep

/-- a run that goes past a place had no cause to end there -/
theorem quiet (c : Cause) : ¬ d.Holds limit stopDuring k c := by
  cases c with
  | register => exact h.no_register
  | stop => exact h.no_stop
  | limit => exact h.no_limit hlimit
  | address => rwa [← h.address_iff]
  | fault => exact h.no_fault hstep

theorem earlier_succ (j : Nat) (hj : j < k + 1) (c : Cause) : ¬ d.Holds limit stopDuring j c := by
  rcases Nat.lt_succ_iff_lt_or_eq.1 hj with hlt | rfl
  · exact h.earlier j hlt c
  · exact h.quiet hlimit haddress hstep c

theorem ends_of_register (hregister : after.breaksAfter e.cpu = true) :
    d.Ends limit stopDuring (k + 1) .register := by
  refine ⟨(h.register_iff hstep).1 hregister, h.earlier_succ hlimit haddress hstep, ?_⟩
  intro c' hlt
  cases c' <;> exact absurd hlt (by decide)

theorem ends_of_stop (hregister : after.breaksAfter e.cpu = false) (hstop : stopDuring = some (k + 1)) :
    d.Ends limit stopDuring (k + 1) .stop := by
  refine ⟨⟨by omega, hstop⟩, h.earlier_succ hlimit haddress hstep, ?_⟩
  intro c' hlt
  obtain rfl : c' = .register := by cases c' <;> first | rfl | exact absurd hlt (by decide)
  rw [← h.register_iff hstep, hregister]
  exact Bool.false_ne_true

theorem next (hregister : after.breaksAfter e.cpu = false) (hstop : stopDuring ≠ some (k + 1)) :
    Underway d limit stopDuring (k + 1) after := by
  obtain ⟨-, hbreakpoints, hfault⟩ := machine_of_step_ok hstep
  refine ⟨h.machine_of_ok hstep, hbreakpoints.trans h.breakpoints, hfault.trans h.lastFault, ?_,
    h.earlier_succ hlimit haddress hstep, ?_, fun hc => hstop hc.2⟩
  · exact ((keeps_step (Cpu.WellFormed.step e.machine.config.profile)).ok ⟨rfl, h.timers⟩ hstep).2
  · rw [← h.register_iff hstep, hregister]
    exact Bool.false_ne_true

end Step

end Underway

/-- a run that ends does so at the first cause. The induction is on the instructions that may still be carried out -/
theorem runFrom_ends {fuel : Nat} {stop : Stop κ} (h : Underway d limit stopDuring k e)
    (hrun : runFrom limit stopDuring fuel k e = some stop) :
    ∃ k' c, d.Ends limit stopDuring k' c ∧ d.Leaves k' stop c := by
  induction fuel generalizing k e with
  | zero => cases hrun
  | succ fuel ih =>
    rcases runFrom_cases hrun with
      ⟨hlimit, rfl⟩ | ⟨hlimit, haddress, rfl⟩ | ⟨hlimit, haddress, ⟨f, after, hstep, -, rfl⟩ |
        ⟨f, after, hstep, hf, rfl⟩ | ⟨ins, after, hstep, hok⟩⟩
    · exact ⟨k, .limit, h.ends_of_limit hlimit, rfl, h.machine, h.lastFault, rfl⟩
    · refine ⟨k, .address, h.ends_of_address hlimit haddress, rfl, h.machine, h.lastFault, ?_⟩
      rw [h.cpu]
    · refine ⟨k, .fault, h.ends_of_fault hlimit haddress hstep, f, after.machine, h.fault hstep, rfl, rfl, rfl, ?_⟩
      rw [h.cpu]
    · -- only a timer that is no byte leads to a fault that the run does not handle
      rw [byProgram_of_debuggerStep h.timers hstep] at hf
      cases hf
    · obtain ⟨-, -, hkept⟩ := machine_of_step_ok hstep
      have hmachine := h.machine_of_ok hstep
      have hfault := hkept.trans h.lastFault
      rcases hok with ⟨hregister, rfl⟩ | ⟨hregister, hstop, rfl⟩ | ⟨hregister, hstop, hrest⟩
      · refine ⟨k + 1, .register, h.ends_of_register hlimit haddress hstep hregister, rfl, hmachine, hfault, ?_⟩
        rw [← hmachine]
        rfl
      · exact ⟨k + 1, .stop, h.ends_of_stop hlimit haddress hstep hregister hstop, rfl, hmachine, hfault, rfl⟩
      · exact ih (h.next hlimit haddress hstep hregister hstop) hrest

/-- a run that has not ended within its fuel has met no cause to -/
theorem runFrom_endless {fuel : Nat} (h : Underway d limit stopDuring k e)
    (hrun : runFrom limit stopDuring fuel k e = none) (j : Nat) (hj : j < k + fuel) (c : Cause) :
    ¬ d.Holds limit stopDuring j c := by
  induction fuel generalizing k e with
  | zero => exact h.earlier j hj c
  | succ fuel ih =>
    rw [runFrom_succ] at hrun
    cases hturn : e.turn limit stopDuring k with
    | inl stop =>
      rw [hturn] at hrun
      cases hrun
    | inr after =>
      rw [hturn] at hrun
      obtain ⟨hlimit, haddress, ins, hstep, hregister, hstop⟩ := turn_eq_inr.1 hturn
      exact ih (h.next hlimit haddress hstep hregister hstop) hrun (by omega)

/-! ## The end of a run -/

/-- a last fault is there if and only if the run ended for a fault, and the notices are one of a breakpoint, one of a
fault, or none, as the reason is -/
theorem Leaves.report {stop : Stop κ} {c : Cause} (h : d.Leaves k stop c) :
    (stop.debugger.lastFault.isSome = true ↔ stop.reason = .fault) ∧
    stop.notices.map Notice.level =
      (if stop.reason = .breakpoint then [.info] else if stop.reason = .fault then [.warning] else []) := by
  cases c with
  | fault =>
    obtain ⟨f, t, -, hreason, -, hfault, hnotices⟩ := h
    rw [hreason, hfault, hnotices]
    exact ⟨⟨fun _ => rfl, fun _ => rfl⟩, rfl⟩
  | _ =>
    obtain ⟨hreason, -, hfault, hnotices⟩ := h
    rw [hreason, hfault, hnotices]
    exact ⟨by decide, rfl⟩

end Debugger

/-- **A run stops at the first cause, and says which.** From a well-formed processor, whatever the breakpoints, the
limit and the instruction during which a stop is asked for: if there is a first cause, after `k` instructions, then the
run ends given any fuel beyond `k`, and leaves what belongs to that cause; and it never ends for anything else. A run has
a last fault if and only if it ended for a fault, and it gives one notice of a breakpoint or of a fault and no other. -/
theorem run_ends_at_first_cause {κ : Type} (d : Debugger κ) (hd : d.cpu.WellFormed) (limit stopDuring : Option Nat)
    (fuel : Nat) :
    (∀ k c, d.Ends limit stopDuring k c → k < fuel →
      ∃ stop, d.run limit stopDuring fuel = some stop ∧ d.Leaves k stop c) ∧
    (∀ stop, d.run limit stopDuring fuel = some stop →
      (∃ k c, d.Ends limit stopDuring k c ∧ d.Leaves k stop c) ∧
      (stop.debugger.lastFault.isSome = true ↔ stop.reason = .fault) ∧
      stop.notices.map Notice.level =
        (if stop.reason = .breakpoint then [.info] else if stop.reason = .fault then [.warning] else [])) := by
  have hstart : d.Underway limit stopDuring 0 { d with lastFault := none } := Debugger.Underway.start hd
  constructor
  · intro k c hends hk
    cases hrun : d.run limit stopDuring fuel with
    | none =>
      have hquiet := Debugger.runFrom_endless hstart hrun k (by omega) c
      exact absurd hends.holds hquiet
    | some stop =>
      obtain ⟨k', c', hends', hleaves⟩ := Debugger.runFrom_ends hstart hrun
      obtain ⟨rfl, rfl⟩ := hends.unique hends'
      exact ⟨stop, rfl, hleaves⟩
  · intro stop hrun
    obtain ⟨k, c, hends, hleaves⟩ := Debugger.runFrom_ends hstart hrun
    exact ⟨⟨k, c, hends, hleaves⟩, hleaves.report⟩

/-- whatever is done in a session with a machine built from an accepted configuration, and whichever random bytes it
draws, its processor is well-formed -/
theorem Session.timers_after {κ : Type} [Credit κ] {v : Value} {c : Config} {ns : List Notice} {m : Machine κ}
    (hv : Config.ofValue v = (.ok c, ns)) (hm : Machine.create c = .ok m) (rng : Twister)
    (ops : List (Session.Op κ)) : (Session.after ops (.start (m.withRng rng))).machine.state.cpu.WellFormed :=
  (machine_within hv hm rng ops).state.cpu.timers

/-- after the one instruction of the small machine every cause holds: a watched register has changed, a stop was asked
for, the limit is reached, the address has a breakpoint, and there is no instruction there -/
def Debugger.crowded : Debugger Rat where
  machine := .small
  breakpoints := [{ kind := .pc, value := some 82 }, { kind := .registerChange, register := some "PC" }]

theorem crowded_ends_at_register :
    Config.ofValue Config.smallDocument = (.ok .small, []) ∧ Machine.create .small = .ok Debugger.crowded.machine ∧
      (∀ c, Debugger.crowded.Holds (some 1) (some 1) 1 c) ∧
      ∃ stop, Debugger.crowded.run (some 1) (some 1) 2 = some stop ∧ stop.reason = .breakpoint ∧
        stop.notices = [.breakpointHit 82] := by
  have hv : Config.ofValue Config.smallDocument = (.ok .small, []) := rfl
  have htimers := Session.timers_after hv Machine.create_small Machine.small.state.rng []
  have hpath : (Debugger.crowded.machine.path 1).state.cpu.pc = 82 := by decide +kernel
  have hall : ∀ c, Debugger.crowded.Holds (some 1) (some 1) 1 c := by
    intro c
    cases c with
    | register =>
      refine ⟨le_refl 1, _, List.mem_cons_of_mem _ List.mem_cons_self, .inr ⟨rfl, rfl, .pc, rfl, ?_⟩⟩
      simp only [Register.value, hpath]
      decide
    | stop => exact ⟨le_refl 1, rfl⟩
    | limit => exact ⟨1, rfl, le_refl 1⟩
    | address =>
      refine ⟨le_refl 1, _, List.mem_cons_self, rfl, rfl, ?_⟩
      rw [hpath]
      rfl
    | fault =>
      have hobstacle : (Debugger.crowded.machine.path 1).state.obstacle?
          (Debugger.crowded.machine.path 1).config.profile = some (.addressOutOfBounds 83 82) := by decide +kernel
      exact ⟨_, _, Machine.step_of_obstacle hobstacle⟩
  have hends : Debugger.crowded.Ends (some 1) (some 1) 1 .register := by
    refine ⟨hall .register, fun j hj c hc => ?_, fun c hlt => ?_⟩
    · obtain rfl : j = 0 := Nat.lt_one_iff.1 hj
      cases c with
      | fault =>
        obtain ⟨f, t, hf⟩ := hc
        have hclear : Machine.small.state.obstacle? Machine.small.config.profile = none := by decide +kernel
        have hok := Machine.step_of_clear hclear
        rw [show Debugger.crowded.machine.path 0 = Machine.small from rfl, hok] at hf
        cases hf
      | limit =>
        obtain ⟨n, hn, hle⟩ := hc
        cases hn
        exact absurd hle (by decide)
      | _ => exact absurd hc.1 (by decide)
    · cases c <;> exact absurd hlt (by decide)
  obtain ⟨stop, hrun, hreason, -, -, hnotices⟩ :=
    (run_ends_at_first_cause Debugger.crowded htimers (some 1) (some 1) 2).1 1 .register hends (by decide)
  rw [hpath] at hnotices
  exact ⟨hv, Machine.create_small, hall, stop, hrun, hreason, hnotices⟩

end Chip8
