/-
When beats are due, in exact time. The n-th instruction is due at n divided by the rate of instructions, the n-th timer
beat at n divided by the rate of timer beats, and `Rates.agenda` lists the beats in that order, an instruction first if
one of each is due at the same time.

- `OnTime`: a list of beats is what is due in a span of time, in the order in which it is due.
- `onTime_iff`: there is exactly one such list, the agenda as far as it goes in that time.
- `next?_clockAt`: a clock hands out the next beat of the agenda, if that is due.
- `beats_clockAt`: so it goes through the agenda up to the present, and there is as much fuel as that takes.
-/
import Mathlib.Tactic
import Chip8.Clock

namespace Chip8

/-- how many beats of each kind there have been -/
abbrev Tally := Beat → Nat

namespace Tally

/-- the tally before the first beat -/
def none : Tally := fun _ => 0

def add (t : Tally) (b : Beat) : Tally := fun c => if b = c then t c + 1 else t c

def addAll (t : Tally) (bs : List Beat) : Tally := fun b => t b + bs.count b

/-- how many more beats there are in `u` than in `t` -/
def gap (t u : Tally) : Nat := (u .step - t .step) + (u .tick - t .tick)

variable {t u v : Tally}

theorem add_self (t : Tally) (b : Beat) : t.add b b = t b + 1 := if_pos rfl

theorem add_of_ne {b c : Beat} (h : b ≠ c) : t.add b c = t c := if_neg h

theorem le_add (t : Tally) (b : Beat) : t ≤ t.add b := by
  intro c
  unfold add
  split_ifs
  · exact Nat.le_succ _
  · exact le_rfl

theorem add_le {b : Beat} (h : t ≤ u) (hb : t b < u b) : t.add b ≤ u := by
  intro c
  unfold add
  split_ifs with hc
  · exact hc ▸ hb
  · exact h c

theorem addAll_nil (t : Tally) : t.addAll [] = t := rfl

theorem addAll_cons (t : Tally) (b : Beat) (bs : List Beat) : t.addAll (b :: bs) = (t.add b).addAll bs := by
  funext c
  unfold addAll add
  rw [List.count_cons]
  by_cases h : b = c
  · rw [if_pos h, if_pos (beq_iff_eq.2 h)]
    omega
  · rw [if_neg h, if_neg (by simpa using h)]
    omega

theorem le_addAll (t : Tally) (bs : List Beat) : t ≤ t.addAll bs := fun _ => Nat.le_add_right _ _

theorem gap_self (t : Tally) : t.gap t = 0 := by
  unfold gap
  omega

theorem eq_of_gap (h : t ≤ u) (hgap : t.gap u = 0) : t = u := by
  unfold gap at hgap
  have hle (b : Beat) : u b ≤ t b := by
    cases b <;> omega
  exact h.antisymm hle

theorem exists_lt_of_gap {n : Nat} (hgap : t.gap u = n + 1) : ∃ b, t b < u b := by
  unfold gap at hgap
  by_cases hstep : t .step < u .step
  · exact ⟨.step, hstep⟩
  · exact ⟨.tick, by omega⟩

theorem gap_add {b : Beat} (h : t ≤ u) (hb : t b < u b) : t.gap u = (t.add b).gap u + 1 := by
  have hstep : t .step ≤ u .step := h .step
  have htick : t .tick ≤ u .tick := h .tick
  unfold gap
  cases b with
  | step =>
    rw [add_self, add_of_ne (by decide)]
    omega
  | tick =>
    rw [add_self, add_of_ne (by decide)]
    omega

theorem gap_trans (h : t ≤ u) (k : u ≤ v) : t.gap v = t.gap u + u.gap v := by
  have hstep : t .step ≤ u .step := h .step
  have htick : t .tick ≤ u .tick := h .tick
  have kstep : u .step ≤ v .step := k .step
  have ktick : u .tick ≤ v .tick := k .tick
  unfold gap
  omega

end Tally

/-- one beat comes before another: it is due earlier, or it is an instruction and the other one a timer beat due at the
same time -/
def Precedes (a b : Rat × Beat) : Prop := a.1 < b.1 ∨ a.1 = b.1 ∧ a.2 = .step ∧ b.2 = .tick

theorem Precedes.asymm {a b : Rat × Beat} (h : Precedes a b) : ¬ Precedes b a := by
  rcases h with h | ⟨h, ha, hb⟩
  · rintro (k | ⟨k, -, -⟩)
    · exact lt_asymm h k
    · exact h.ne' k
  · rintro (k | ⟨-, kb, -⟩)
    · exact k.ne' h
    · rw [hb] at kb
      cases kb

theorem Precedes.trans_le {a : Rat × Beat} {x y : Rat} {b : Beat} (h : Precedes a (x, b)) (hle : x ≤ y) :
    Precedes a (y, b) := by
  rcases h with h | ⟨h, ha, hb⟩
  · exact .inl (h.trans_le hle)
  · exact (h.trans_le hle).lt_or_eq.imp_right fun heq => ⟨heq, ha, hb⟩

namespace Rates

/-! ## Due times -/

def of (r : Rates Rat) : Beat → Rat
  | .step => r.cpu
  | .tick => r.timer

/-- when the next beat of a kind is due after those in a tally, in seconds from the start -/
def due (r : Rates Rat) (t : Tally) (b : Beat) : Rat := (t b + 1) / r.of b

def dueTimes (r : Rates Rat) : Tally → List Beat → List (Rat × Beat)
  | _, [] => []
  | t, b :: bs => (r.due t b, b) :: r.dueTimes (t.add b) bs

/-- the beat that is due next: an instruction, if both are due at the same time -/
def first (r : Rates Rat) (t : Tally) : Beat := if r.due t .step ≤ r.due t .tick then .step else .tick

/-- the next `n` beats in the order in which they are due -/
def agenda (r : Rates Rat) : (n : Nat) → Tally → List Beat
  | 0, _ => []
  | n + 1, t => r.first t :: r.agenda n (t.add (r.first t))

/-- the beats that are due within a time -/
def tallyAt (r : Rates Rat) (time : Rat) : Tally := fun b => ⌊r.of b * time⌋.toNat

/-- the beats are those of the first `time` seconds, in the order in which they are due -/
structure OnTime (r : Rates Rat) (time : Rat) (bs : List Beat) : Prop where
  count : ∀ b, (bs.count b : Int) = ⌊r.of b * time⌋
  ordered : (r.dueTimes .none bs).Pairwise Precedes

variable {r : Rates Rat} {t u : Tally} {time : Rat}

theorem due_mono (hr : ∀ b, 0 < r.of b) (h : t ≤ u) (b : Beat) : r.due t b ≤ r.due u b := by
  have hb : (t b : Rat) ≤ u b := Nat.cast_le.2 (h b)
  exact div_le_div_of_nonneg_right (add_le_add_left hb 1) (hr b).le

theorem due_lt_of_add_le (hr : ∀ b, 0 < r.of b) {b : Beat} (h : t.add b ≤ u) : r.due t b < r.due u b := by
  have hb : (t b : Rat) < u b := Nat.cast_lt.2 (by
    have := h b
    rwa [Tally.add_self] at this)
  exact div_lt_div_of_pos_right (add_lt_add_left hb 1) (hr b)

theorem due_add_of_ne {b c : Beat} (h : c ≠ b) : r.due (t.add c) b = r.due t b := by
  unfold due
  rw [Tally.add_of_ne h]

/-- a beat is due by a time if it is one of those due within it -/
theorem due_le_iff (hr : ∀ b, 0 < r.of b) (b : Beat) : r.due t b ≤ time ↔ t b < r.tallyAt time b := by
  have hcast : ((t b : Rat) + 1) = (((t b : Int) + 1 : Int) : Rat) := by push_cast; rfl
  unfold due tallyAt
  rw [div_le_iff₀ (hr b), mul_comm time, hcast, ← Int.le_floor]
  omega

theorem due_first_le (r : Rates Rat) (t : Tally) (b : Beat) : r.due t (r.first t) ≤ r.due t b := by
  unfold first
  split_ifs with h
  · cases b with
    | step => exact le_rfl
    | tick => exact h
  · cases b with
    | step => exact (not_le.1 h).le
    | tick => exact le_rfl

/-- the beat that is due next comes before the next one of the other kind -/
theorem first_precedes {b : Beat} (h : r.first t ≠ b) : Precedes (r.due t (r.first t), r.first t) (r.due t b, b) := by
  unfold first at *
  split_ifs at * with hle
  · cases b with
    | step => exact absurd rfl h
    | tick => exact hle.lt_or_eq.imp_right fun heq => ⟨heq, rfl, rfl⟩
  · cases b with
    | step => exact .inl (not_le.1 hle)
    | tick => exact absurd rfl h

/-- the next beat is due before the time is up if any beat is left to be done -/
theorem first_lt_tallyAt (hr : ∀ b, 0 < r.of b) {b : Beat} (h : t b < r.tallyAt time b) :
    t (r.first t) < r.tallyAt time (r.first t) :=
  (due_le_iff hr _).1 ((r.due_first_le t b).trans ((due_le_iff hr b).2 h))

/-! ## The agenda -/

theorem mem_dueTimes {bs : List Beat} {a : Rat × Beat} (h : a ∈ r.dueTimes t bs) :
    ∃ u, t ≤ u ∧ a.1 = r.due u a.2 := by
  induction bs generalizing t with
  | nil => cases h
  | cons b bs ih =>
    rcases List.mem_cons.1 h with rfl | h
    · exact ⟨t, le_rfl, rfl⟩
    · obtain ⟨u, hu, ha⟩ := ih h
      exact ⟨u, (t.le_add b).trans hu, ha⟩

/-- the first beat of a kind in a list is due when the next beat of that kind is -/
theorem due_mem_dueTimes {bs : List Beat} {b : Beat} (h : b ∈ bs) : (r.due t b, b) ∈ r.dueTimes t bs := by
  induction bs generalizing t with
  | nil => cases h
  | cons c bs ih =>
    by_cases hc : c = b
    · rw [hc]
      exact List.mem_cons_self
    · have hmem := ih (t := t.add c) ((List.mem_cons.1 h).resolve_left (Ne.symm hc))
      rw [due_add_of_ne hc] at hmem
      exact List.mem_cons_of_mem _ hmem

theorem agenda_ordered (hr : ∀ b, 0 < r.of b) (n : Nat) (t : Tally) :
    (r.dueTimes t (r.agenda n t)).Pairwise Precedes := by
  induction n generalizing t with
  | zero => exact .nil
  | succ n ih =>
    refine .cons ?_ (ih _)
    rintro ⟨time, b⟩ ha
    obtain ⟨u, hu, hdue⟩ := mem_dueTimes ha
    have hdue : time = r.due u b := hdue
    rw [hdue]
    by_cases hb : r.first t = b
    · rw [← hb]
      exact .inl (due_lt_of_add_le hr hu)
    · exact (first_precedes hb).trans_le (due_mono hr ((t.le_add _).trans hu) b)

example : agenda ⟨3, 2⟩ 5 .none = [.step, .tick, .step, .step, .tick] := by decide +kernel

theorem agenda_add (r : Rates Rat) (m n : Nat) (t : Tally) :
    r.agenda (m + n) t = r.agenda m t ++ r.agenda n (t.addAll (r.agenda m t)) := by
  induction m generalizing t with
  | zero => rw [Nat.zero_add, agenda, List.nil_append, Tally.addAll_nil]
  | succ m ih => rw [Nat.succ_add, agenda, agenda, ih, Tally.addAll_cons, List.cons_append]

/-- the beats due within a time that are not in the tally yet, in the order in which they are due -/
def pending (r : Rates Rat) (t : Tally) (time : Rat) : List Beat := r.agenda (t.gap (r.tallyAt time)) t

theorem pending_tallyAt (r : Rates Rat) (time : Rat) : r.pending (r.tallyAt time) time = [] := by
  rw [pending, Tally.gap_self, agenda]

theorem addAll_pending (hr : ∀ b, 0 < r.of b) (h : t ≤ r.tallyAt time) :
    t.addAll (r.pending t time) = r.tallyAt time := by
  unfold pending
  induction hn : t.gap (r.tallyAt time) generalizing t with
  | zero => exact Tally.eq_of_gap h hn
  | succ n ih =>
    obtain ⟨b, hb⟩ := Tally.exists_lt_of_gap hn
    have hfirst := first_lt_tallyAt hr hb
    have hgap := Tally.gap_add h hfirst
    rw [agenda, Tally.addAll_cons]
    exact ih (Tally.add_le h hfirst) (by omega)

theorem tallyAt_zero (r : Rates Rat) : r.tallyAt 0 = .none := by
  funext b
  rw [tallyAt, mul_zero, Int.floor_zero]
  rfl

theorem tallyAt_mono (hr : ∀ b, 0 < r.of b) {time' : Rat} (h : time ≤ time') : r.tallyAt time ≤ r.tallyAt time' :=
  fun b => Int.toNat_le_toNat (Int.floor_le_floor (mul_le_mul_of_nonneg_left h (hr b).le))

/-- what is pending up to a later time is what is pending up to an earlier one, and then what is pending from there -/
theorem pending_append (hr : ∀ b, 0 < r.of b) (h : t ≤ r.tallyAt time) {time' : Rat} (hle : time ≤ time') :
    r.pending t time' = r.pending t time ++ r.pending (r.tallyAt time) time' := by
  have hgap := Tally.gap_trans h (tallyAt_mono hr hle)
  have hall := addAll_pending hr h
  unfold pending at *
  rw [hgap, agenda_add, hall]

/-- beats that are in order and complete are what is pending. If the first of them were not the one due next, that one
would come later in the list, although it is due before -/
theorem eq_pending (hr : ∀ b, 0 < r.of b) {bs : List Beat} (hordered : (r.dueTimes t bs).Pairwise Precedes)
    (hall : t.addAll bs = r.tallyAt time) : bs = r.pending t time := by
  unfold pending
  induction bs generalizing t with
  | nil =>
    rw [← hall, Tally.addAll_nil, Tally.gap_self, agenda]
  | cons b bs ih =>
    obtain ⟨hhead, htail⟩ := List.pairwise_cons.1 hordered
    rw [Tally.addAll_cons] at hall
    have hle : t.add b ≤ r.tallyAt time := by
      rw [← hall]
      exact Tally.le_addAll _ _
    have hb : t b < r.tallyAt time b := by
      have := hle b
      rwa [Tally.add_self] at this
    have hfirst : r.first t = b := by
      by_contra hne
      have hlt := first_lt_tallyAt hr hb
      have hmem : r.first t ∈ bs := by
        rw [← hall] at hlt
        unfold Tally.addAll at hlt
        rw [Tally.add_of_ne (Ne.symm hne)] at hlt
        exact List.count_pos_iff.1 (by omega)
      have hlater := hhead _ (due_mem_dueTimes hmem)
      rw [due_add_of_ne (Ne.symm hne)] at hlater
      exact (first_precedes hne).asymm hlater
    rw [Tally.gap_add ((t.le_add b).trans hle) hb, agenda, hfirst, ← ih htail hall]

/-- **Exactly one list of beats is what is due in a span of time:** the agenda as far as it goes in that time. -/
theorem onTime_iff (hr : ∀ b, 0 < r.of b) (htime : 0 ≤ time) (bs : List Beat) :
    r.OnTime time bs ↔ bs = r.pending .none time := by
  have hfloor (b : Beat) : 0 ≤ ⌊r.of b * time⌋ := Int.floor_nonneg.2 (mul_nonneg (hr b).le htime)
  constructor
  · intro h
    refine eq_pending hr h.ordered ?_
    funext b
    have := h.count b
    unfold Tally.addAll Tally.none tallyAt
    omega
  · rintro rfl
    refine ⟨fun b => ?_, agenda_ordered hr _ _⟩
    have hnone : Tally.none ≤ r.tallyAt time := fun _ => Nat.zero_le _
    have hall := congrFun (addAll_pending hr hnone) b
    have := hfloor b
    unfold Tally.addAll Tally.none tallyAt at *
    omega

end Rates

/-! ## Clocks -/

namespace Clock

variable {κ : Type} [Credit κ]

/-- the credit after one more beat -/
def spend (c : Clock κ) : Beat → Clock κ
  | .step => { c with steps := c.steps - Credit.one }
  | .tick => { c with ticks := c.ticks - Credit.one }

/-- the beats that credit pays for, one after the other, at most `fuel` of them -/
def beats (rates : Rates κ) : (fuel : Nat) → Clock κ → List Beat
  | 0, _ => []
  | fuel + 1, c =>
    match c.next? rates with
    | some (b, rest) => b :: beats rates fuel rest
    | none => []

/-- a beat is paid for with the credit of its kind -/
theorem next?_eq_some {rates : Rates κ} {c rest : Clock κ} {b : Beat} (h : c.next? rates = some (b, rest)) :
    rest = c.spend b := by
  unfold next? at h
  split_ifs at h <;> cases h <;> rfl

end Clock

namespace Rates

variable {r : Rates Rat} {t : Tally} {time : Rat}

/-- the credit at a time if the beats in a tally have been done -/
def clockAt (r : Rates Rat) (time : Rat) (t : Tally) : Clock Rat := ⟨r.cpu * time - t .step, r.timer * time - t .tick⟩

theorem clockAt_zero (r : Rates Rat) : r.clockAt 0 (r.tallyAt 0) = Clock.zero := by
  have hzero (b : Beat) : (0 : Rat) - Tally.none b = 0 := by
    rw [Tally.none, Nat.cast_zero, sub_zero]
  rw [tallyAt_zero, clockAt, mul_zero, mul_zero]
  exact congrArg₂ Clock.mk (hzero .step) (hzero .tick)

/-- if all that is due has been done, fractions are left -/
theorem clockAt_tallyAt (hr : ∀ b, 0 < r.of b) (htime : 0 ≤ time) :
    r.clockAt time (r.tallyAt time) = ⟨Int.fract (r.cpu * time), Int.fract (r.timer * time)⟩ := by
  have hfract (b : Beat) : r.of b * time - r.tallyAt time b = Int.fract (r.of b * time) := by
    have hfloor : 0 ≤ ⌊r.of b * time⌋ := Int.floor_nonneg.2 (mul_nonneg (hr b).le htime)
    have hcast : ((r.tallyAt time b : Nat) : Rat) = ((⌊r.of b * time⌋ : Int) : Rat) := by
      rw [tallyAt, ← Int.cast_natCast, Int.toNat_of_nonneg hfloor]
    rw [hcast, Int.self_sub_floor]
  exact congrArg₂ Clock.mk (hfract .step) (hfract .tick)

theorem spend_clockAt (r : Rates Rat) (time : Rat) (t : Tally) (b : Beat) :
    (r.clockAt time t).spend b = r.clockAt time (t.add b) := by
  have hself : r.of b * time - t b - 1 = r.of b * time - t.add b b := by
    rw [Tally.add_self]
    push_cast
    ring
  cases b with
  | step =>
    have hother : r.timer * time - t .tick = r.timer * time - t.add .step .tick := by
      rw [Tally.add_of_ne (by decide)]
    exact congrArg₂ Clock.mk hself hother
  | tick =>
    have hother : r.cpu * time - t .step = r.cpu * time - t.add .tick .step := by
      rw [Tally.add_of_ne (by decide)]
    exact congrArg₂ Clock.mk hother hself

theorem one_le_credit_iff (hr : ∀ b, 0 < r.of b) (b : Beat) : 1 ≤ r.of b * time - t b ↔ r.due t b ≤ time := by
  unfold due
  rw [div_le_iff₀ (hr b), mul_comm time, le_sub_iff_add_le, add_comm]

/-- the age of credit is how long the beat it pays for has been due -/
theorem age_credit (hr : ∀ b, 0 < r.of b) (b : Beat) :
    (r.of b * time - t b - 1) / r.of b = time - r.due t b := by
  have hne : r.of b ≠ 0 := (hr b).ne'
  unfold due
  field_simp
  ring

theorem next?_clockAt (hr : ∀ b, 0 < r.of b) (time : Rat) (t : Tally) :
    (r.clockAt time t).next? r =
      if r.due t (r.first t) ≤ time then some (r.first t, r.clockAt time (t.add (r.first t))) else none := by
  have hnext : (r.clockAt time t).next? r =
      if 1 ≤ r.of .step * time - t .step then
        if 1 ≤ r.of .tick * time - t .tick ∧
            ¬ (r.of .tick * time - t .tick - 1) / r.of .tick ≤ (r.of .step * time - t .step - 1) / r.of .step then
          some (.tick, (r.clockAt time t).spend .tick)
        else some (.step, (r.clockAt time t).spend .step)
      else if 1 ≤ r.of .tick * time - t .tick then some (.tick, (r.clockAt time t).spend .tick)
      else none := rfl
  rw [hnext, age_credit hr, age_credit hr]
  simp only [one_le_credit_iff hr, spend_clockAt, sub_le_sub_iff_left]
  by_cases hle : r.due t .step ≤ r.due t .tick
  · have hfirst : r.first t = .step := if_pos hle
    by_cases hstep : r.due t .step ≤ time
    · simp only [hfirst, hle, hstep, not_true, and_false, if_true, if_false]
    · have htick : ¬ r.due t .tick ≤ time := fun htick => hstep (hle.trans htick)
      simp only [hfirst, hstep, htick, if_false]
  · have hfirst : r.first t = .tick := if_neg hle
    by_cases htick : r.due t .tick ≤ time
    · simp only [hfirst, hle, htick, not_false_eq_true, and_self, if_true, ite_self]
    · have hstep : ¬ r.due t .step ≤ time := fun hstep => htick ((not_le.1 hle).le.trans hstep)
      simp only [hfirst, hstep, htick, if_false]

/-- credit pays for the beats that are pending -/
theorem beats_clockAt (hr : ∀ b, 0 < r.of b) (h : t ≤ r.tallyAt time) :
    Clock.beats r (t.gap (r.tallyAt time)) (r.clockAt time t) = r.pending t time := by
  unfold pending
  induction hn : t.gap (r.tallyAt time) generalizing t with
  | zero => rfl
  | succ n ih =>
    obtain ⟨b, hb⟩ := Tally.exists_lt_of_gap hn
    have hfirst := first_lt_tallyAt hr hb
    have hgap := Tally.gap_add h hfirst
    rw [Clock.beats, next?_clockAt hr, if_pos ((due_le_iff hr _).2 hfirst), agenda]
    exact congrArg _ (ih (Tally.add_le h hfirst) (by omega))

theorem beatCount_clockAt (r : Rates Rat) (time : Rat) (t : Tally) :
    (r.clockAt time t).beatCount = t.gap (r.tallyAt time) := by
  have hfloor (b : Beat) : ⌊r.of b * time - t b⌋.toNat = r.tallyAt time b - t b := by
    rw [Int.floor_sub_natCast]
    exact Int.toNat_sub' _ _
  exact congrArg₂ (· + ·) (hfloor .step) (hfloor .tick)

end Rates

end Chip8
