/-
Two clocks that do not see each other. Only three instructions have to do with the timers: Fx07 reads one, Fx15 and
Fx18 set one. Between beats of a program that attempts none of them it makes no difference where the timer beats fall:
the cycles answer the same, errors included, and leave what they would leave alone, and each timer has counted its
beats. Beats go on after a cycle that fails, as they do for a caller who goes on.

- `State.afterBeats`, `State.answers`, `State.fetches`: what beats leave, what their cycles answer, and which words
  these fetch.
- `State.agree_step_withTimers`: one cycle under other timers.
- `State.run_withTimers`: beats of both clocks, and the cycles among them alone.
- `interleavings_agree`: the same from one state.
-/
import Chip8.Proofs.Atomicity
import Chip8.Proofs.Cause
import Chip8.Proofs.Simulation

namespace Chip8

open Act

/-! ## Beats -/

/-- Fx07, Fx15 and Fx18 -/
def Word.Timed (w : UInt16) : Prop := Word.top w = 0xF ∧ (Word.low w = 0x07 ∨ Word.low w = 0x15 ∨ Word.low w = 0x18)

instance (w : UInt16) : Decidable (Word.Timed w) := inferInstanceAs (Decidable (_ ∧ _))

namespace State

variable (p : Profile)

/-- the state after beats, one after the other; a cycle that fails leaves what it has reached -/
def afterBeats (s : State) (bs : List Beat) : State := bs.foldl (fun s b => left (Effect.beat p b) s) s

theorem afterBeats_cons (s : State) (b : Beat) (bs : List Beat) :
    s.afterBeats p (b :: bs) = (left (Effect.beat p b) s).afterBeats p bs := rfl

/-- what a cycle answers: the instruction carried out, or the error -/
def answer (s : State) : Except Fault Instruction :=
  match Effect.step p s with
  | .ok ins _ => .ok ins
  | .error f _ => .error f

def answers : State → List Beat → List (Except Fault Instruction)
  | _, [] => []
  | s, .step :: bs => s.answer p :: answers (left (Effect.beat p .step) s) bs
  | s, .tick :: bs => answers (left (Effect.beat p .tick) s) bs

/-- the words that the cycles among beats fetch, carried out or not -/
def fetches : State → List Beat → List UInt16
  | _, [] => []
  | s, .step :: bs =>
    (if s.cpu.pc + 1 < s.memory.size then [s.word] else []) ++ fetches (left (Effect.beat p .step) s) bs
  | s, .tick :: bs => fetches (left (Effect.beat p .tick) s) bs

/-- no cycle among the beats fetches an instruction that has to do with the timers -/
def Untimed (s : State) (bs : List Beat) : Prop := ∀ w ∈ s.fetches p bs, ¬ Word.Timed w

end State

/-! ## The instructions that know of timers -/

/-- the instruction reads or sets a timer -/
def Instruction.timed : Instruction → Bool
  | readDelay _ | setDelay _ | setSound _ => true
  | _ => false

theorem Instruction.timed_decode {w : UInt16} (h : ¬ Word.Timed w) : (Instruction.decode w).timed = false := by
  have hw := Instruction.decode_pattern w
  cases hins : Instruction.decode w with
  | readDelay x =>
    rw [hins] at hw
    obtain ⟨htop, hlow, -⟩ := hw
    exact absurd ⟨htop, .inl hlow⟩ h
  | setDelay x =>
    rw [hins] at hw
    obtain ⟨htop, hlow, -⟩ := hw
    exact absurd ⟨htop, .inr (.inl hlow)⟩ h
  | setSound x =>
    rw [hins] at hw
    obtain ⟨htop, hlow, -⟩ := hw
    exact absurd ⟨htop, .inr (.inr hlow)⟩ h
  | _ => rfl

/-! ## One cycle under other timers -/

namespace State

def withTimers (s : State) (delay sound : Int) : State := s.withCpu { s.cpu with delay, sound }

variable {p : Profile} {s : State} (delay sound : Int)

theorem withTimers_self : s.withTimers s.cpu.delay s.cpu.sound = s := rfl

theorem pc_withTimers : (s.withTimers delay sound).cpu.pc = s.cpu.pc := rfl

theorem memory_withTimers : (s.withTimers delay sound).memory = s.memory := rfl

theorem word_withTimers : (s.withTimers delay sound).word = s.word := rfl

theorem obstacle_withTimers {ins : Instruction} (h : ins.timed = false) :
    ins.obstacle? p (s.withTimers delay sound) = ins.obstacle? p s := by
  cases ins with
  | readDelay x => cases h
  | _ => rfl

theorem outcome_withTimers {ins : Instruction} (h : ins.timed = false) :
    ins.outcome p (s.withTimers delay sound) = (ins.outcome p s).withTimers delay sound := by
  cases ins with
  | readDelay x => cases h
  | setDelay x => cases h
  | setSound x => cases h
  -- unfolded by name, as the registers would be compared one by one otherwise
  | restore x => simp only [Instruction.outcome, withTimers, withCpu, Cpu.advanced, Cpu.setFirstRegs]
  | _ => rfl

theorem halted_withTimers : (s.withTimers delay sound).halted = s.halted.withTimers delay sound := by
  unfold halted
  rw [pc_withTimers, memory_withTimers]
  split_ifs <;> rfl

/-- a cycle that fetches no instruction for the timers does the same under other timers, and leaves them as they are -/
theorem agree_step_withTimers (h : s.cpu.pc + 1 < s.memory.size → ¬ Word.Timed s.word) :
    Agree (fun t u => u = t.withTimers delay sound) (Effect.step p s)
      (Effect.step p (s.withTimers delay sound)) := by
  have htimed (hf : s.cpu.pc + 1 < s.memory.size) : s.instruction.timed = false :=
    Instruction.timed_decode (h hf)
  have hobstacle : (s.withTimers delay sound).obstacle? p = s.obstacle? p := by
    unfold obstacle?
    rw [pc_withTimers, memory_withTimers]
    split_ifs with hf
    · exact obstacle_withTimers delay sound (s := s.fetched) (htimed hf)
    · rfl
  rw [Effect.step_eq, Effect.step_eq, hobstacle, halted_withTimers]
  cases hnone : s.obstacle? p with
  | some f => exact .error f rfl
  | none =>
    have hf : s.cpu.pc + 1 < s.memory.size := by
      by_contra hout
      unfold obstacle? at hnone
      rw [if_neg hout] at hnone
      cases hnone
    have hnext : (s.withTimers delay sound).next p = (s.next p).withTimers delay sound :=
      congrArg counted (outcome_withTimers delay sound (s := s.fetched) (htimed hf))
    exact .ok s.instruction hnext

theorem answer_withTimers (h : s.cpu.pc + 1 < s.memory.size → ¬ Word.Timed s.word) :
    (s.withTimers delay sound).answer p = s.answer p := by
  have hagree := agree_step_withTimers (p := p) delay sound h
  unfold answer
  generalize Effect.step p s = result, Effect.step p (s.withTimers delay sound) = result' at hagree
  cases hagree with
  | ok ins h => rfl
  | error f h => rfl

theorem left_step_withTimers (h : s.cpu.pc + 1 < s.memory.size → ¬ Word.Timed s.word) :
    left (Effect.beat p .step) (s.withTimers delay sound) = (left (Effect.beat p .step) s).withTimers delay sound :=
  ((agree_step_withTimers delay sound h).bind fun _ _ _ _ hrel => .ok () hrel).left

theorem left_tick_withTimers :
    left (Effect.beat p .tick) (s.withTimers delay sound) =
      s.withTimers (Cpu.countDown delay) (Cpu.countDown sound) := rfl

/-! ## Beats of both clocks -/

theorem untimed_step_iff {bs : List Beat} :
    s.Untimed p (.step :: bs) ↔
      (s.cpu.pc + 1 < s.memory.size → ¬ Word.Timed s.word) ∧ (left (Effect.beat p .step) s).Untimed p bs := by
  unfold Untimed
  rw [fetches, List.forall_mem_append]
  refine and_congr_left fun _ => ?_
  split_ifs with hf
  · simp [hf]
  · simp [hf]

/-- the cycles among beats fetch no instruction for the timers if they fetch none without the timer beats -/
theorem untimed_alone {bs : List Beat} (h : (s.withTimers delay sound).Untimed p bs) :
    s.Untimed p (List.replicate (bs.count .step) .step) := by
  induction bs generalizing s delay sound with
  | nil => exact List.forall_mem_nil _
  | cons b bs ih =>
    cases b with
    | step =>
      obtain ⟨hfirst, hrest⟩ := untimed_step_iff.1 h
      rw [pc_withTimers, memory_withTimers, word_withTimers] at hfirst
      rw [List.count_cons_self, List.replicate_succ]
      refine untimed_step_iff.2 ⟨hfirst, ih delay sound ?_⟩
      rwa [left_step_withTimers delay sound hfirst] at hrest
    | tick =>
      have hrest : (left (Effect.beat p .tick) (s.withTimers delay sound)).Untimed p bs := h
      rw [left_tick_withTimers] at hrest
      rw [List.count_cons_of_ne (by decide)]
      exact ih _ _ hrest

/-- beats of both clocks do what the cycles among them do alone, and the timers count their own beats -/
theorem run_withTimers {bs : List Beat} (h : s.Untimed p (List.replicate (bs.count .step) .step)) :
    (s.withTimers delay sound).answers p bs = s.answers p (List.replicate (bs.count .step) .step) ∧
      (s.withTimers delay sound).afterBeats p bs =
        (s.afterBeats p (List.replicate (bs.count .step) .step)).withTimers (Cpu.countDown^[bs.count .tick] delay)
          (Cpu.countDown^[bs.count .tick] sound) := by
  induction bs generalizing s delay sound with
  | nil => exact ⟨rfl, rfl⟩
  | cons b bs ih =>
    cases b with
    | step =>
      rw [List.count_cons_self, List.replicate_succ] at h
      obtain ⟨hfirst, hrest⟩ := untimed_step_iff.1 h
      have hleft := left_step_withTimers (p := p) delay sound hfirst
      obtain ⟨hanswers, hafter⟩ := ih delay sound hrest
      rw [List.count_cons_self, List.count_cons_of_ne (by decide), List.replicate_succ]
      constructor
      · rw [answers, answers, answer_withTimers delay sound hfirst, hleft, hanswers]
      · rw [afterBeats_cons, afterBeats_cons, hleft, hafter]
    | tick =>
      rw [List.count_cons_of_ne (by decide)] at h
      obtain ⟨hanswers, hafter⟩ := ih (Cpu.countDown delay) (Cpu.countDown sound) h
      rw [List.count_cons_self, List.count_cons_of_ne (by decide)]
      constructor
      · rw [answers, left_tick_withTimers, hanswers]
      · rw [afterBeats_cons, left_tick_withTimers, hafter]
        rfl

end State

/-- a timer after so many beats -/
theorem Cpu.iterate_countDown {timer : Int} (h : 0 ≤ timer) (k : Nat) : countDown^[k] timer = max 0 (timer - k) := by
  induction k with
  | zero => simp [h]
  | succ k ih =>
    rw [Function.iterate_succ_apply', ih]
    unfold countDown
    split_ifs <;> push_cast <;> omega

/-- **Cycles and timer beats commute.** As long as the cycles attempt none of Fx07, Fx15 and Fx18, every interleaving of
as many cycles with timer beats answers what the cycles alone answer, errors included and in their order, and leaves
what they leave, but for the timers: each of them has gone down by one for every beat, to zero at most. The cycles may
be seen to attempt none of the three in any one of the interleavings. -/
theorem interleavings_agree {p : Profile} {s : State} (hs : s.cpu.WellFormed) {n k : Nat} {run bs : List Beat}
    (hrun : run.count .step = n) (huntimed : s.Untimed p run) (hn : bs.count .step = n) (hk : bs.count .tick = k) :
    s.answers p bs = s.answers p (List.replicate n .step) ∧
      s.afterBeats p bs =
        (s.afterBeats p (List.replicate n .step)).withTimers (max 0 (s.cpu.delay - k)) (max 0 (s.cpu.sound - k)) := by
  subst hn hk
  have halone : s.Untimed p (List.replicate (bs.count .step) .step) := by
    rw [← hrun]
    exact State.untimed_alone s.cpu.delay s.cpu.sound huntimed
  obtain ⟨hanswers, hafter⟩ := State.run_withTimers s.cpu.delay s.cpu.sound halone
  rw [s.withTimers_self] at hanswers hafter
  rw [Cpu.iterate_countDown hs.delay_nonneg, Cpu.iterate_countDown hs.sound_nonneg] at hafter
  exact ⟨hanswers, hafter⟩

/-- a return with no call open and an addition, and nothing behind them -/
def stumbling : State where
  cpu := { delay := 1, sound := 5 }
  memory := ⟨#[0x00, 0xEE, 0x71, 0x01]⟩
  screen := .dark 8 8
  rng := .ofSeed 0

theorem stumbling_interleaved :
    stumbling.cpu.WellFormed ∧ stumbling.Untimed {} [.step, .step, .step] ∧
      stumbling.answers {} [.tick, .step, .step, .tick, .step] =
        [.error .stackUnderflow, .ok (.add 1 1), .error (.addressOutOfBounds 5 4)] ∧
      (stumbling.afterBeats {} [.tick, .step, .step, .tick, .step]).cpu.delay = 0 ∧
      (stumbling.afterBeats {} [.tick, .step, .step, .tick, .step]).cpu.sound = 3 := by
  have hwell : stumbling.cpu.WellFormed := ⟨by decide, by decide, by decide, by decide⟩
  have hfetches : stumbling.fetches {} [.step, .step, .step] = [0x00EE, 0x7101] := by decide +kernel
  have huntimed : stumbling.Untimed {} [.step, .step, .step] := by
    unfold State.Untimed
    rw [hfetches]
    exact List.forall_mem_cons.2 ⟨by decide, List.forall_mem_singleton.2 (by decide)⟩
  have halone : stumbling.answers {} (List.replicate 3 .step) =
      [.error .stackUnderflow, .ok (.add 1 1), .error (.addressOutOfBounds 5 4)] := by decide +kernel
  have hcount : [Beat.tick, .step, .step, .tick, .step].count .step = 3 := rfl
  obtain ⟨hanswers, hafter⟩ := interleavings_agree hwell rfl huntimed hcount rfl
  refine ⟨hwell, huntimed, hanswers.trans halone, ?_, ?_⟩
  · rw [hafter]
    decide
  · rw [hafter]
    decide

end Chip8
