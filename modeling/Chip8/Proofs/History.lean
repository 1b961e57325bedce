/-
The record of a debugger is the recent history. The history of a session lists the instructions that the debugger has
carried out, each with the address it was at. It is told from the machine alone (`Machine.Drives`): the instructions
succeed one after the other from the machine before an operation on, and the machine that the operation leaves is the
one after them, or the one that a failing instruction leaves. Every instruction carried out counts as a cycle, so this
settles how many there were, and which (`Machine.Drives.unique`).

- `Debugger.Records.of_runFrom`: what a run puts on record.
- `Session.exists_history`, `Session.History.unique`: a session has one history.
- `trace_is_recent_history`: the record holds the end of it.
-/
import Mathlib.Data.List.DropRight
import Chip8.Proofs.Stopping

namespace Chip8

open Act

/-! ## What a machine carries out -/

namespace Machine

variable {κ : Type}

/-- the program counter, and the instruction that the two bytes there stand for -/
def upcoming (m : Machine κ) : Nat × Instruction :=
  (m.state.cpu.pc, Instruction.decode
    (Word.ofBytes (m.state.memory.byte m.state.cpu.pc) (m.state.memory.byte (m.state.cpu.pc + 1))))

/-- the instructions succeed one after the other and lead from the one machine to the other; each is listed as it was
found before it was carried out -/
inductive Carries : Machine κ → List (Nat × Instruction) → Machine κ → Prop
  | nil (m : Machine κ) : Carries m [] m
  | cons {m t u : Machine κ} {ins : Instruction} {es : List (Nat × Instruction)} :
      step m = .ok ins t → Carries t es u → Carries m (m.upcoming :: es) u

/-- the instructions succeed one after the other, and the machine left is the one after them or the one that a failing
instruction leaves there -/
def Drives (m : Machine κ) (es : List (Nat × Instruction)) (left : Machine κ) : Prop :=
  ∃ t, Carries m es t ∧ (left = t ∨ ∃ e, step t = .error e left)

variable {m t u : Machine κ} {es es' : List (Nat × Instruction)}

theorem cycles_of_step_ok {ins : Instruction} (h : step m = .ok ins t) : t.state.cycles = m.state.cycles + 1 := by
  rw [step_apply] at h
  cases hs : Effect.step m.config.profile m.state with
  | ok ins' s =>
    rw [hs] at h
    cases h
    exact Effect.cycles_of_step hs
  | error f s =>
    rw [hs] at h
    cases h

theorem cycles_of_step_error {e : Error} (h : step m = .error e t) : t.state.cycles = m.state.cycles := by
  rw [step_apply] at h
  cases hs : Effect.step m.config.profile m.state with
  | ok ins s =>
    rw [hs] at h
    cases h
  | error f s =>
    rw [hs] at h
    cases h
    obtain ⟨-, rfl⟩ := Effect.step_eq_error.1 hs
    simp only [State.halted]
    split_ifs <;> rfl

theorem Carries.cycles (h : Carries m es t) : t.state.cycles = m.state.cycles + es.length := by
  induction h with
  | nil m => rfl
  | cons hstep _ ih =>
    rw [ih, cycles_of_step_ok hstep, List.length_cons]
    omega

theorem Drives.cycles (h : Drives m es t) : t.state.cycles = m.state.cycles + es.length := by
  obtain ⟨u, hcarries, rfl | ⟨e, herror⟩⟩ := h
  · exact hcarries.cycles
  · rw [cycles_of_step_error herror, hcarries.cycles]

/-- a machine has one way to go on, so the instructions are known from their number -/
theorem Carries.unique (h : Carries m es t) (h' : Carries m es' u) (hlength : es.length = es'.length) : es = es' := by
  induction h generalizing es' with
  | nil m => exact (List.length_eq_zero_iff.1 hlength.symm).symm
  | cons hstep _ ih =>
    cases h' with
    | nil m => cases hlength
    | cons hstep' hrest' =>
      obtain ⟨-, rfl⟩ := EStateM.Result.ok.inj (hstep.symm.trans hstep')
      rw [ih hrest' (Nat.succ.inj hlength)]

/-- the machine before and the machine left say what was carried out in between -/
theorem Drives.unique (h : Drives m es t) (h' : Drives m es' t) : es = es' := by
  have hlength : es.length = es'.length := Nat.add_left_cancel (h.cycles.symm.trans h'.cycles)
  obtain ⟨u, hcarries, -⟩ := h
  obtain ⟨u', hcarries', -⟩ := h'
  exact hcarries.unique hcarries' hlength

theorem Drives.nil (m : Machine κ) : Drives m [] m := ⟨m, .nil m, .inl rfl⟩

theorem Drives.of_error {e : Error} (h : step m = .error e t) : Drives m [] t := ⟨m, .nil m, .inr ⟨e, h⟩⟩

theorem Drives.cons {ins : Instruction} (hstep : step m = .ok ins t) (h : Drives t es u) :
    Drives m (m.upcoming :: es) u := by
  obtain ⟨v, hcarries, hleft⟩ := h
  exact ⟨v, .cons hstep hcarries, hleft⟩

end Machine

/-! ## What a debugger puts on record -/

namespace Debugger

variable {κ : Type} {d after : Debugger κ} {es : List (Nat × Instruction)}

/-- the record of the debugger holds the end of a history -/
def Records (d : Debugger κ) (es : List (Nat × Instruction)) : Prop := d.trace = es.reverse.take traceLimit

/-- an instruction that succeeds goes on record as it was found before -/
theorem Records.of_step_ok {ins : Instruction} (h : d.Records es) (hstep : d.step = .ok ins after) :
    after.Records (es ++ [d.machine.upcoming]) := by
  rw [step_eq] at hstep
  cases hs : Effect.step d.machine.config.profile d.machine.state with
  | ok ins' s =>
    rw [hs] at hstep
    cases hstep
    obtain ⟨-, rfl, -⟩ := Effect.step_eq_ok.1 hs
    calc (d.machine.upcoming :: d.trace).take traceLimit
        = (d.machine.upcoming :: es.reverse.take traceLimit).take traceLimit := by rw [h]
      _ = (d.machine.upcoming :: es.reverse).take traceLimit := by
        simp only [traceLimit, List.take_succ_cons, List.take_take]
        rfl
      _ = (es ++ [d.machine.upcoming]).reverse.take traceLimit := by rw [List.reverse_concat]
  | error f s =>
    rw [hs] at hstep
    cases hstep

/-- an instruction that fails does not -/
theorem Records.of_step_error {f : Fault} (h : d.Records es) (hstep : d.step = .error f after) : after.Records es := by
  rw [step_eq] at hstep
  cases hs : Effect.step d.machine.config.profile d.machine.state with
  | ok ins s =>
    rw [hs] at hstep
    cases hstep
  | error g s =>
    rw [hs] at hstep
    cases hstep
    exact h

/-- an instruction that fails is the end of what is carried out -/
theorem Records.of_failure {f : Fault} (h : d.Records es) (hstep : d.step = .error f after) :
    ∃ new, d.machine.Drives new after.machine ∧ after.Records (es ++ new) := by
  refine ⟨[], .of_error (machine_of_step_error hstep).1, ?_⟩
  rw [List.append_nil]
  exact h.of_step_error hstep

/-- a run puts on record what it carries out. The induction is on the instructions that may still be carried out -/
theorem Records.of_runFrom {limit stopDuring : Option Nat} {fuel k : Nat} {stop : Stop κ} (h : d.Records es)
    (hrun : runFrom limit stopDuring fuel k d = some stop) :
    ∃ new, d.machine.Drives new stop.debugger.machine ∧ stop.debugger.Records (es ++ new) := by
  induction fuel generalizing k d es with
  | zero => cases hrun
  | succ fuel ih =>
    rcases runFrom_cases hrun with
      ⟨-, rfl⟩ | ⟨-, -, rfl⟩ | ⟨-, -, ⟨f, after, hstep, -, rfl⟩ | ⟨f, after, hstep, -, rfl⟩ | ⟨ins, after, hstep, hok⟩⟩
    · exact ⟨[], .nil _, by rwa [List.append_nil]⟩
    · exact ⟨[], .nil _, by rwa [List.append_nil]⟩
    · obtain ⟨new, hdrives, hrecords⟩ := h.of_failure hstep
      exact ⟨new, hdrives, hrecords⟩
    · obtain ⟨new, hdrives, hrecords⟩ := h.of_failure hstep
      exact ⟨new, hdrives, hrecords⟩
    · have hmachine := (machine_of_step_ok hstep).1
      have hrecords := h.of_step_ok hstep
      rcases hok with ⟨-, rfl⟩ | ⟨-, -, rfl⟩ | ⟨-, -, hrest⟩
      · exact ⟨_, .cons hmachine (.nil _), hrecords⟩
      · exact ⟨_, .cons hmachine (.nil _), hrecords⟩
      · obtain ⟨new, hdrives, hlater⟩ := ih hrecords hrest
        refine ⟨_, .cons hmachine hdrives, ?_⟩
        rwa [List.append_assoc] at hlater

end Debugger

/-! ## Sessions -/

namespace Session

variable {κ : Type} [Credit κ] {s : Session κ} {op : Op κ} {ops : List (Op κ)} {es es' : List (Nat × Instruction)}

/-- the instructions that the debugger carries out in an operation; all but two operations go past the debugger -/
def Adds (s : Session κ) (op : Op κ) (es : List (Nat × Instruction)) : Prop :=
  match op with
  | .debugStep | .run _ _ _ => s.machine.Drives es (s.perform op).machine
  | _ => es = []

/-- the instructions that the debugger carries out in a session, one operation after the other -/
inductive History : Session κ → List (Op κ) → List (Nat × Instruction) → Prop
  | nil (s : Session κ) : History s [] []
  | cons {s : Session κ} {op : Op κ} {ops : List (Op κ)} {es rest : List (Nat × Instruction)} :
      s.Adds op es → History (s.perform op) ops rest → History s (op :: ops) (es ++ rest)

theorem Adds.unique (h : s.Adds op es) (h' : s.Adds op es') : es = es' := by
  cases op with
  | debugStep => exact Machine.Drives.unique h h'
  | run limit stopDuring fuel => exact Machine.Drives.unique h h'
  | _ => exact Eq.trans h (Eq.symm h')

theorem History.unique (h : s.History ops es) (h' : s.History ops es') : es = es' := by
  induction h generalizing es' with
  | nil s =>
    cases h'
    rfl
  | cons hadds _ ih =>
    cases h' with
    | cons hadds' hrest' => rw [hadds.unique hadds', ih hrest']

/-- an operation puts on record what the debugger carries out in it -/
theorem exists_adds (h : s.debugger.Records es) (op : Op κ) :
    ∃ new, s.Adds op new ∧ (s.perform op).debugger.Records (es ++ new) := by
  have hsame (t : Session κ) (ht : t.debugger.trace = s.debugger.trace) : t.debugger.Records (es ++ []) := by
    rw [List.append_nil]
    exact ht.trans h
  cases op with
  | debugStep =>
    simp only [Adds, perform, left, machine]
    cases hstep : s.debugger.step with
    | ok ins after =>
      exact ⟨_, .cons (Debugger.machine_of_step_ok hstep).1 (.nil _), h.of_step_ok hstep⟩
    | error f after => exact h.of_failure hstep
  | run limit stopDuring fuel =>
    simp only [Adds, perform, machine]
    cases hrun : s.debugger.run limit stopDuring fuel with
    | some stop =>
      have hstart : Debugger.Records { s.debugger with lastFault := none } es := h
      exact hstart.of_runFrom hrun
    | none => exact ⟨[], .nil _, hsame s rfl⟩
  | setPixel x y on =>
    refine ⟨[], rfl, hsame _ ?_⟩
    simp only [perform]
    cases s.machine.state.screen.setPixel x y on <;> rfl
  | restore slot =>
    refine ⟨[], rfl, hsame _ ?_⟩
    simp only [perform]
    cases s.saved[slot]? <;> rfl
  | _ => exact ⟨[], rfl, hsame _ rfl⟩

theorem exists_history (h : s.debugger.Records es) (ops : List (Op κ)) :
    ∃ new, s.History ops new ∧ (after ops s).debugger.Records (es ++ new) := by
  induction ops generalizing s es with
  | nil => exact ⟨[], .nil s, by rwa [List.append_nil]⟩
  | cons op ops ih =>
    obtain ⟨new, hadds, hrecords⟩ := exists_adds h op
    obtain ⟨rest, hrest, hlater⟩ := ih hrecords
    refine ⟨new ++ rest, .cons hadds hrest, ?_⟩
    rwa [List.append_assoc] at hlater

end Session

/-- **The trace is the true recent history.** Whatever is done in a session with a debugger that has nothing on record:
the session has one history, which lists the instructions that succeeded under the debugger in their order, each with
the program counter before it and as the two bytes there were read then; and the record, oldest first, is the last 256
entries of it, or all if there are fewer. -/
theorem trace_is_recent_history {κ : Type} [Credit κ] {s : Session κ} (hs : s.debugger.trace = [])
    (ops : List (Session.Op κ)) :
    ∃ history, s.History ops history ∧ (∀ other, s.History ops other → other = history) ∧
      (Session.after ops s).debugger.trace.reverse = history.rtake 256 ∧
      (Session.after ops s).debugger.trace.length = min 256 history.length := by
  have hnone : s.debugger.Records [] := hs
  obtain ⟨history, hhistory, hrecords⟩ := Session.exists_history hnone ops
  have htrace : (Session.after ops s).debugger.trace = history.reverse.take 256 := hrecords
  refine ⟨history, hhistory, fun other hother => hother.unique hhistory, ?_, ?_⟩
  · rw [htrace, List.rtake_eq_reverse_take_reverse]
  · rw [htrace, List.length_take, List.length_reverse]

/-- one instruction, one that fails, another that is loaded and carried out past the debugger, and that one once more
in a run that fails after it -/
def Session.mixed : List (Session.Op Rat) :=
  [.save, .debugStep, .debugStep, .load (.raw [0x60, 0x07]), .step, .restore 0, .run none none 9]

theorem mixed_history :
    (Session.start Machine.small).debugger.trace = [] ∧
      (Session.start Machine.small).History Session.mixed [(80, .sys 0), (80, .load 0 7)] := by
  refine ⟨rfl, ?_⟩
  obtain ⟨history, hhistory, -, hrecent, hlength⟩ := trace_is_recent_history (s := .start .small) rfl Session.mixed
  have htrace : (Session.after Session.mixed (.start .small)).debugger.trace = [(80, .load 0 7), (80, .sys 0)] := by
    decide +kernel
  rw [htrace] at hrecent hlength
  have hshort : history.length = 2 := by
    simp only [List.length_cons, List.length_nil] at hlength
    omega
  rw [List.rtake, hshort] at hrecent
  rw [show history = [(80, .sys 0), (80, .load 0 7)] from hrecent.symm] at hhistory
  exact hhistory

end Chip8
