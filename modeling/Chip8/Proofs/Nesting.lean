/-
Calls and returns. Between a call and its return anything may happen to the processor: cycles that succeed or fail,
beats of the timer clock, keys. Only three things ever happen to the call stack in that time (`Event.stack_cases`): a
call puts an address on top of it, a return takes one off and goes on there, and everything else leaves it alone.

- `Outstanding`: what stays true while a call has not returned; `Outstanding.apply` is the step lemma.
- `depth_after`: the number of entries, told from the calls and returns carried out.
- `calls_nest`: what a call finds when it returns.
-/
import Chip8.Proofs.Outcome

namespace Chip8

open Act

/-! ## Events -/

/-- something that happens to a processor: a cycle, a beat of the timer clock, a key that is pressed or released -/
inductive Event where
  | step
  | tick
  | key (key : Int) (pressed : Bool)
  deriving DecidableEq, Repr

namespace Event

/-- the state that an event leaves, whether it succeeds or fails -/
def apply (p : Profile) (s : State) : Event → State
  | step => left (Effect.step p) s
  | tick => left Effect.tick s
  | key k pressed => left (Effect.setKey k pressed) s

/-- the instruction that an event carries out, if it does so successfully -/
def carriesOut (p : Profile) (s : State) : Event → Option Instruction
  | step => match Effect.step p s with
    | .ok ins _ => some ins
    | .error _ _ => none
  | _ => none

end Event

def Instruction.isCall : Instruction → Bool
  | call _ => true
  | _ => false

namespace State

def depth (s : State) : Nat := s.cpu.stack.top.val

def after (p : Profile) (s : State) (es : List Event) : State := es.foldl (Event.apply p) s

/-- the instructions that are carried out successfully in the course of events -/
def log (p : Profile) (s : State) : List Event → List Instruction
  | [] => []
  | e :: es => (e.carriesOut p s).toList ++ log p (e.apply p s) es

variable (p : Profile) (s : State) (es : List Event) (e : Event)

theorem after_concat : s.after p (es ++ [e]) = e.apply p (s.after p es) := List.foldl_concat _ _ _ _

theorem log_concat : s.log p (es ++ [e]) = s.log p es ++ (e.carriesOut p (s.after p es)).toList := by
  induction es generalizing s with
  | nil => exact List.append_nil _
  | cons e' es ih =>
    rw [List.cons_append, log, ih, log, List.append_assoc]
    rfl

def calls : Nat := (s.log p es).countP Instruction.isCall

def returns : Nat := (s.log p es).count .ret

end State

/-! ## What happens to the stack -/

namespace CallStack

variable {s : CallStack} {value : Int}

theorem top_pushed (h : s.top.val ≠ 15) : (s.pushed value).top.val = s.top.val + 1 := by
  have hroom : s.top.val + 1 < 16 := by omega
  rw [pushed, dif_pos hroom]

theorem slots_pushed_of_le (k : Fin 16) (hk : k.val ≤ s.top.val) : (s.pushed value).slots[k] = s.slots[k] := by
  unfold pushed
  split_ifs with hroom
  · exact Vector.getElem_set_ne hroom k.isLt (by omega)
  · rfl

theorem slots_pushed_top (k : Fin 16) (hk : k.val = s.top.val + 1) :
    (s.pushed value).slots[k] = (value % 0x10000).toNat := by
  have hroom : s.top.val + 1 < 16 := by omega
  rw [pushed, dif_pos hroom]
  simp only [Fin.getElem_fin, hk, Vector.getElem_set_self]

end CallStack

namespace Effect

variable {p : Profile} {s t : State} {ins : Instruction}

/-- a cycle that succeeds has changed the stack as its instruction does, and nothing stood against that -/
theorem stack_of_step (h : step p s = .ok ins t) :
    s.cpu.pc + 1 < s.memory.size ∧ ins.obstacle? p s.fetched = none ∧
      t.cpu.stack = (ins.outcome p s.fetched).cpu.stack ∧ t.cpu.pc = (ins.outcome p s.fetched).cpu.pc := by
  obtain ⟨hclear, rfl, rfl⟩ := step_eq_ok.1 h
  unfold State.obstacle? at hclear
  split_ifs at hclear with hfetch
  exact ⟨hfetch, hclear, rfl, rfl⟩

/-- a call that succeeds has found room, and puts the address after it on top -/
theorem stack_of_call {addr : Fin 4096} (h : step p s = .ok (.call addr) t) :
    s.cpu.pc + 1 < s.memory.size ∧ s.depth ≠ 15 ∧ t.cpu.stack = s.cpu.stack.pushed (s.cpu.pc + 2 : Nat) := by
  obtain ⟨hfetch, hclear, hstack, -⟩ := stack_of_step h
  obtain ⟨-, hroom⟩ := Option.or_eq_none_iff.1 hclear
  refine ⟨hfetch, ?_, hstack⟩
  intro hfull
  rw [if_pos (show s.fetched.cpu.stack.top.val = 15 from hfull)] at hroom
  cases hroom

/-- a return that succeeds has found an address, takes it off and goes on there -/
theorem stack_of_ret (h : step p s = .ok .ret t) :
    s.depth ≠ 0 ∧ t.cpu.stack = s.cpu.stack.popped ∧ t.cpu.pc = s.cpu.stack.slots.get s.cpu.stack.top := by
  obtain ⟨-, hclear, hstack, hpc⟩ := stack_of_step h
  refine ⟨?_, hstack, hpc⟩
  intro hempty
  rw [Instruction.obstacle?, if_pos (show s.fetched.cpu.stack.top.val = 0 from hempty)] at hclear
  cases hclear

end Effect

namespace Event

variable {p : Profile} {s : State} {e : Event}

theorem carriesOut_eq_some {ins : Instruction} :
    e.carriesOut p s = some ins ↔ e = .step ∧ Effect.step p s = .ok ins (e.apply p s) := by
  cases e with
  | step =>
    unfold carriesOut apply left
    cases Effect.step p s with
    | ok ins' t => simp
    | error f t => simp
  | tick => simp [carriesOut]
  | key k pressed => simp [carriesOut]

/-- an event that carries out nothing leaves all but timers, keys and the program counter -/
theorem apply_of_none (h : e.carriesOut p s = none) :
    ∃ pc delay sound keys, e.apply p s = s.withCpu { s.cpu with pc, delay, sound, keys } := by
  cases e with
  | tick => exact ⟨_, _, _, _, rfl⟩
  | key k pressed =>
    unfold apply left Effect.setKey
    simp only [bind_apply, get_apply, Cpu.setKey]
    cases Cpu.key k <;> exact ⟨_, _, _, _, rfl⟩
  | step =>
    cases hstep : Effect.step p s with
    | ok ins t => simp [carriesOut, hstep] at h
    | error f t =>
      obtain ⟨-, rfl⟩ := Effect.step_eq_error.1 hstep
      rw [apply, left_of_error hstep, State.halted]
      split_ifs <;> exact ⟨_, _, _, _, rfl⟩

/-- all that an event can do to the stack -/
theorem stack_cases (e : Event) (p : Profile) (s : State) :
    (∃ addr, e.carriesOut p s = some (.call addr) ∧ s.depth ≠ 15 ∧
      (e.apply p s).cpu.stack = s.cpu.stack.pushed (s.cpu.pc + 2 : Nat)) ∨
    (e.carriesOut p s = some .ret ∧ s.depth ≠ 0 ∧ (e.apply p s).cpu.stack = s.cpu.stack.popped ∧
      (e.apply p s).cpu.pc = s.cpu.stack.slots.get s.cpu.stack.top) ∨
    ((∀ ins ∈ e.carriesOut p s, ins.isCall = false ∧ ins ≠ .ret) ∧ (e.apply p s).cpu.stack = s.cpu.stack) := by
  cases hdone : e.carriesOut p s with
  | some ins =>
    obtain ⟨-, hstep⟩ := carriesOut_eq_some.1 hdone
    cases ins with
    | call addr =>
      obtain ⟨-, hroom, hstack⟩ := Effect.stack_of_call hstep
      exact .inl ⟨addr, rfl, hroom, hstack⟩
    | ret => exact .inr (.inl ⟨rfl, Effect.stack_of_ret hstep⟩)
    | _ =>
      obtain ⟨-, -, hstack, -⟩ := Effect.stack_of_step hstep
      rw [Instruction.outcome_stack] at hstack
      refine .inr (.inr ⟨?_, hstack⟩)
      rintro ins ⟨⟩
      exact ⟨rfl, nofun⟩
  | none =>
    obtain ⟨pc, delay, sound, keys, hleft⟩ := apply_of_none hdone
    exact .inr (.inr ⟨nofun, by rw [hleft]; rfl⟩)

/-- no event changes a slot in use: a call writes above all of them, and a return leaves the slot it takes off -/
theorem slots_of_le (k : Fin 16) (hk : k.val ≤ s.depth) :
    (e.apply p s).cpu.stack.slots[k] = s.cpu.stack.slots[k] := by
  rcases e.stack_cases p s with ⟨addr, -, -, hstack⟩ | ⟨-, -, hstack, -⟩ | ⟨-, hstack⟩
  · rw [hstack, CallStack.slots_pushed_of_le k hk]
  · rw [hstack]
    rfl
  · rw [hstack]

end Event

/-! ## The number of entries -/

namespace State

variable (p : Profile) (s : State) (es : List Event)

/-- one event: entries and returns together grow by the calls -/
theorem depth_apply (e : Event) :
    (e.apply p s).depth + (e.carriesOut p s).toList.count .ret =
      s.depth + (e.carriesOut p s).toList.countP Instruction.isCall := by
  rcases e.stack_cases p s with ⟨addr, hdone, hroom, hstack⟩ | ⟨hdone, hentry, hstack, -⟩ | ⟨hother, hstack⟩
  · rw [hdone, depth, hstack, CallStack.top_pushed hroom]
    rfl
  · rw [hdone, depth, hstack]
    change s.depth - 1 + 1 = s.depth
    omega
  · rw [depth, hstack]
    cases hdone : e.carriesOut p s with
    | none => rfl
    | some ins =>
      obtain ⟨hcall, hret⟩ := hother ins hdone
      simp [hcall, hret, depth]

/-- the number of entries is what it was at first, and the calls since less the returns -/
theorem depth_after : (s.after p es).depth + s.returns p es = s.depth + s.calls p es := by
  induction es using List.reverseRecOn with
  | nil => rfl
  | append_singleton es e ih =>
    have hlast := depth_apply p (s.after p es) e
    unfold returns calls at ih ⊢
    rw [after_concat, log_concat, List.count_append, List.countP_append]
    omega

end State

/-! ## A call that has not returned -/

/-- the call that found the stack `before` and returns to `address` has not returned yet -/
structure Outstanding (before : CallStack) (address : Nat) (s : State) : Prop where
  deep : before.top.val < s.depth
  below : ∀ k : Fin 16, k.val ≤ before.top.val → s.cpu.stack.slots[k] = before.slots[k]
  entry : ∀ k : Fin 16, k.val = before.top.val + 1 → s.cpu.stack.slots[k] = address

namespace Outstanding

variable {p : Profile} {before : CallStack} {address : Nat} {s : State} {e : Event}

/-- a call that has just been made; the stack has room for sixteen bits of the address after it -/
theorem of_step_call {t : State} {addr : Fin 4096} (hcall : Effect.step p s = .ok (.call addr) t) :
    Outstanding s.cpu.stack ((s.cpu.pc + 2) % 0x10000) t := by
  obtain ⟨-, hroom, hstack⟩ := Effect.stack_of_call hcall
  refine ⟨?_, ?_, ?_⟩
  · rw [State.depth, hstack, CallStack.top_pushed hroom]
    exact Nat.lt_succ_self _
  · intro k hk
    rw [hstack, CallStack.slots_pushed_of_le k hk]
  · intro k hk
    rw [hstack, CallStack.slots_pushed_top k hk]
    omega

/-- a call that has just been made in a memory whose addresses have no more than sixteen bits -/
theorem of_call {t : State} {addr : Fin 4096} (hsize : s.memory.size ≤ 65535)
    (hcall : Effect.step p s = .ok (.call addr) t) : Outstanding s.cpu.stack (s.cpu.pc + 2) t := by
  obtain ⟨hfetch, -, -⟩ := Effect.stack_of_call hcall
  have hmade := of_step_call hcall
  rwa [Nat.mod_eq_of_lt (by omega)] at hmade

/-- events keep a call outstanding that leave its entry on the stack -/
theorem apply (h : Outstanding before address s) (hdeep : before.top.val < (e.apply p s).depth) :
    Outstanding before address (e.apply p s) := by
  refine ⟨hdeep, fun k hk => ?_, fun k hk => ?_⟩
  · rw [Event.slots_of_le k (le_trans hk h.deep.le), h.below k hk]
  · rw [Event.slots_of_le k (le_trans hk.le h.deep), h.entry k hk]

/-- the event that takes the entry of an outstanding call off the stack is a return, and it goes on after the call -/
theorem returns (h : Outstanding before address s) (hshallow : ¬ before.top.val < (e.apply p s).depth) :
    e = .step ∧ Effect.step p s = .ok .ret (e.apply p s) ∧ (e.apply p s).depth = before.top.val ∧
      (e.apply p s).cpu.pc = address := by
  have hdeep := h.deep
  unfold State.depth at hdeep hshallow ⊢
  rcases e.stack_cases p s with ⟨addr, -, hroom, hstack⟩ | ⟨hdone, -, hstack, hpc⟩ | ⟨-, hstack⟩
  · rw [hstack, CallStack.top_pushed hroom] at hshallow
    exact absurd hshallow (by omega)
  · obtain ⟨hstep, hret⟩ := Event.carriesOut_eq_some.1 hdone
    have htop : (e.apply p s).cpu.stack.top.val = s.cpu.stack.top.val - 1 := by rw [hstack]; rfl
    rw [htop] at hshallow
    refine ⟨hstep, hret, by omega, ?_⟩
    rw [hpc]
    exact h.entry s.cpu.stack.top (by omega)
  · rw [hstack] at hshallow
    exact absurd hdeep hshallow

/-- a call stays outstanding as long as its entry has not been taken off the stack -/
theorem after (h : Outstanding before address s) (es : List Event)
    (hdeep : ∀ es', es' <+: es → before.top.val < (s.after p es').depth) :
    Outstanding before address (s.after p es) := by
  induction es using List.reverseRecOn with
  | nil => exact h
  | append_singleton es e ih =>
    have hlast := hdeep _ (List.prefix_refl _)
    rw [State.after_concat] at hlast ⊢
    exact (ih fun es' hes' => hdeep es' (hes'.trans (List.prefix_append es [e]))).apply hlast

/-- entries are taken off one by one, so a stack that has never been back at its old depth is deeper -/
theorem after_of_ne (h : Outstanding before address s) (es : List Event)
    (hne : ∀ es', es' <+: es → (s.after p es').depth ≠ before.top.val) :
    Outstanding before address (s.after p es) := by
  induction es using List.reverseRecOn with
  | nil => exact h
  | append_singleton es e ih =>
    have hlast := hne _ (List.prefix_refl _)
    rw [State.after_concat] at hlast ⊢
    have hbefore := ih fun es' hes' => hne es' (hes'.trans (List.prefix_append es [e]))
    by_cases hdeep : before.top.val < (e.apply p (s.after p es)).depth
    · exact hbefore.apply hdeep
    · obtain ⟨-, -, hdepth, -⟩ := hbefore.returns hdeep
      exact absurd hdepth hlast

/-- the first event that brings the stack back to where it was before a call is the return of that call -/
theorem resumes (h : Outstanding before address s) {es : List Event}
    (hne : ∀ es', es' <+: es → (s.after p es').depth ≠ before.top.val)
    (hback : (s.after p (es ++ [e])).depth = before.top.val) :
    e = .step ∧ Effect.step p (s.after p es) = .ok .ret (s.after p (es ++ [e])) ∧
      (s.after p (es ++ [e])).cpu.pc = address := by
  rw [State.after_concat] at hback ⊢
  obtain ⟨hstep, hret, -, hpc⟩ := (h.after_of_ne es hne).returns (e := e) (p := p) (by
    rw [hback]
    exact lt_irrefl _)
  exact ⟨hstep, hret, hpc⟩

end Outstanding

/-- **Calls and returns nest.** A call is carried out with `depth` entries on the stack, in a memory of at most 65535
bytes. Whatever happens after it, the number of entries is that, one for the call, and the calls since less the returns
since. As long as there have been more entries than before the call, those from before the call are as they were, and
the next one is the address after the call. The first event after which there are no more than before is a return, and
it goes on right after the call. -/
theorem calls_nest (p : Profile) {s t : State} {addr : Fin 4096} (hsize : s.memory.size ≤ 65535)
    (hcall : Effect.step p s = .ok (.call addr) t) :
    (∀ es, (t.after p es).depth + t.returns p es = s.depth + (1 + t.calls p es)) ∧
    (∀ es, (∀ es', es' <+: es → s.depth + 1 ≤ (t.after p es').depth) →
      (∀ k : Fin 16, k.val ≤ s.depth → (t.after p es).cpu.stack.slots[k] = s.cpu.stack.slots[k]) ∧
      (∀ k : Fin 16, k.val = s.depth + 1 → (t.after p es).cpu.stack.slots[k] = s.cpu.pc + 2)) ∧
    (∀ es e, (∀ es', es' <+: es → (t.after p es').depth ≠ s.depth) → (t.after p (es ++ [e])).depth = s.depth →
      e = .step ∧ Effect.step p (t.after p es) = .ok .ret (t.after p (es ++ [e])) ∧
        (t.after p (es ++ [e])).cpu.pc = s.cpu.pc + 2) := by
  have hmade := Outstanding.of_call hsize hcall
  refine ⟨fun es => ?_, fun es hdeep => ?_, fun es e hne hback => ?_⟩
  · obtain ⟨-, hroom, hstack⟩ := Effect.stack_of_call hcall
    have hdepth : t.depth = s.depth + 1 := by
      rw [State.depth, hstack, CallStack.top_pushed hroom]
      rfl
    have hlater := State.depth_after p t es
    omega
  · have hstill := hmade.after es hdeep
    exact ⟨hstill.below, hstill.entry⟩
  · rw [State.after_concat] at hback ⊢
    have hlast := hmade.after_of_ne es hne
    obtain ⟨hstep, hret, -, hpc⟩ := hlast.returns (e := e) (p := p) (by
      rw [hback]
      exact lt_irrefl _)
    exact ⟨hstep, hret, hpc⟩

/-- a call of a routine that makes a call itself before it returns -/
def nestedCall : State :=
  { memory := ⟨#[0x20, 0x04, 0x00, 0x00, 0x20, 0x08, 0x00, 0xEE, 0x00, 0xEE]⟩, screen := .dark 8 8,
    rng := .ofSeed 0 }

/-- the inner call, a key that there is not, the inner return, and the outer return, which is the first to bring the
stack back and goes on after the outer call -/
theorem nestedCall_returns :
    ∃ t, Effect.step {} nestedCall = .ok (.call 4) t ∧
      (t.after {} [.step, .key 99 true, .step]).cpu.stack.slots[(1 : Fin 16)] = 2 ∧
      t.calls {} [.step, .key 99 true, .step, .step] = 1 ∧ t.returns {} [.step, .key 99 true, .step, .step] = 2 ∧
      (t.after {} [.step, .key 99 true, .step, .step]).depth = 0 ∧
      (t.after {} [.step, .key 99 true, .step, .step]).cpu.pc = 2 := by
  have hcall : Effect.step {} nestedCall = .ok (.call 4) (nestedCall.next {}) :=
    Effect.step_eq_ok.2 ⟨by decide +kernel, by decide +kernel, rfl⟩
  have hdeep : ∀ es' ∈ List.inits [.step, .key 99 true, .step], 0 < ((nestedCall.next {}).after {} es').depth := by
    decide +kernel
  have hback : ((nestedCall.next {}).after {} [.step, .key 99 true, .step, .step]).depth = 0 := by decide +kernel
  obtain ⟨-, hslots, hreturn⟩ := calls_nest {} (by decide) hcall
  obtain ⟨-, hentry⟩ := hslots [.step, .key 99 true, .step] fun es' hes' => hdeep es' ((List.mem_inits _ _).2 hes')
  obtain ⟨-, -, hpc⟩ := hreturn [.step, .key 99 true, .step] .step
    (fun es' hes' => (hdeep es' ((List.mem_inits _ _).2 hes')).ne') hback
  exact ⟨_, hcall, hentry 1 rfl, by decide +kernel, by decide +kernel, hback, hpc⟩

end Chip8
