/-
Waiting for a key. Fx0A takes its own fetch back as long as no key is pressed, so the next cycle comes upon it again.
However long that goes on, and whatever keys go down and up between the cycles, nothing happens but what happens outside
the program: timers count, keys are as they were set last, and cycles are counted (`State.waited`).

- `State.waited`: what is left of a state after events of which the cycles do nothing but count.
- `AwaitsKey.apply`: one event; `AwaitsKey.after`: events, one after the other.
- `AwaitsKey.step_of_key`: the cycle that finds a key.
- `wait_is_stable`: the wait, and its end.
-/
import Chip8.Proofs.Footprint
import Chip8.Proofs.Nesting

namespace Chip8

open Act

/-! ## Keys -/

namespace Cpu

/-- a key goes by its number -/
theorem key_eq_ok {n : Int} {k : Fin 16} : key n = .ok k ↔ n = k.val := by
  unfold key
  split_ifs with hn
  · simp only [Except.ok.injEq, Fin.ext_iff]
    omega
  · simp only [false_iff]
    omega

theorem ne_of_key_eq_error {n : Int} {f : Fault} (h : key n = .error f) (k : Fin 16) : n ≠ k.val := by
  intro hn
  rw [key_eq_ok.2 hn] at h
  cases h

end Cpu

/-- how an event sets a key, if it does -/
def Event.sets? (k : Fin 16) : Event → Option Bool
  | .key j pressed => if j = k.val then some pressed else none
  | _ => none

/-! ## Events while a key is waited for -/

namespace State

/-- the word at the program counter is Fx0A -/
structure AwaitsKey (s : State) : Prop where
  inside : s.cpu.pc + 1 < s.memory.size
  top : Word.top s.word = 0xF
  low : Word.low s.word = 0x0A

/-- whenever a cycle comes up in the course of events, no key is pressed -/
def NoKeyAtCycles (p : Profile) (s : State) : List Event → Prop
  | [] => True
  | e :: es => (e = .step → ∀ k, s.cpu.keys.get k = false) ∧ NoKeyAtCycles p (e.apply p s) es

/-- a key is pressed after events if it was set so last, or was pressed before and has not been set -/
def pressedAfter (s : State) (es : List Event) (k : Fin 16) : Bool :=
  es.foldl (fun on e => (e.sets? k).getD on) (s.cpu.keys.get k)

/-- the state after events of which the cycles do nothing but count -/
def waited (s : State) (es : List Event) : State :=
  { s with
    cpu := { s.cpu with
      delay := Cpu.countDown^[es.count .tick] s.cpu.delay
      sound := Cpu.countDown^[es.count .tick] s.cpu.sound
      keys := Vector.ofFn (s.pressedAfter es) }
    cycles := s.cycles + es.count .step }

variable {p : Profile} {s : State} {es es' : List Event}

theorem NoKeyAtCycles.of_prefix (h : s.NoKeyAtCycles p es) (hes : es' <+: es) : s.NoKeyAtCycles p es' := by
  induction es' generalizing s es with
  | nil => exact trivial
  | cons e es' ih =>
    obtain ⟨rest, rfl⟩ := hes
    obtain ⟨hfirst, hrest⟩ := h
    exact ⟨hfirst, ih hrest (List.prefix_append es' rest)⟩

theorem get_ofFn_pressedAfter (s : State) (es : List Event) (k : Fin 16) :
    (Vector.ofFn (s.pressedAfter es)).get k = s.pressedAfter es k := Vector.getElem_ofFn k.isLt

theorem ofFn_pressedAfter_nil (s : State) : Vector.ofFn (s.pressedAfter []) = s.cpu.keys := by
  ext k hk
  rw [Vector.getElem_ofFn]
  rfl

/-- a wait goes on from where it has come -/
theorem waited_waited (s : State) (es es' : List Event) : (s.waited es).waited es' = s.waited (es ++ es') := by
  have hkeys : (s.waited es).pressedAfter es' = s.pressedAfter (es ++ es') := by
    funext k
    unfold pressedAfter
    rw [List.foldl_append, waited, get_ofFn_pressedAfter]
    rfl
  have htimer (timer : Int) : Cpu.countDown^[es'.count .tick] (Cpu.countDown^[es.count .tick] timer) =
      Cpu.countDown^[(es ++ es').count .tick] timer := by
    rw [List.count_append, Nat.add_comm, Function.iterate_add_apply]
  have hcycles : s.cycles + es.count .step + es'.count .step = s.cycles + (es ++ es').count .step := by
    rw [List.count_append, Nat.add_assoc]
  rw [waited, hkeys]
  simp only [waited, htimer, hcycles]

/-- what happens outside the program does the same to the state, whether a key is waited for or not -/
theorem apply_eq_waited {e : Event} (he : e ≠ .step) : e.apply p s = s.waited [e] := by
  cases e with
  | step => exact absurd rfl he
  | tick =>
    have hkeys : s.pressedAfter [.tick] = s.pressedAfter [] := rfl
    rw [waited, hkeys, ofFn_pressedAfter_nil]
    rfl
  | key k pressed =>
    simp only [Event.apply, left, Effect.setKey, bind_apply, get_apply, Cpu.setKey]
    cases hk : Cpu.key k with
    | ok j =>
      have hkeys : s.cpu.keys.set j pressed = Vector.ofFn (s.pressedAfter [.key k pressed]) := by
        ext i hi
        rw [Vector.getElem_set, Vector.getElem_ofFn]
        simp only [pressedAfter, Event.sets?, Cpu.key_eq_ok.1 hk, List.foldl_cons, List.foldl_nil, Nat.cast_inj]
        split_ifs <;> rfl
      rw [waited, ← hkeys]
      rfl
    | error f =>
      have hkeys : s.pressedAfter [.key k pressed] = s.pressedAfter [] := by
        funext j
        simp [pressedAfter, Event.sets?, Cpu.ne_of_key_eq_error hk j]
      rw [waited, hkeys, ofFn_pressedAfter_nil]
      rfl

namespace AwaitsKey

variable {e : Event}

theorem instruction (h : s.AwaitsKey) : s.instruction = .waitKey (Word.x s.word) :=
  instruction_of_pattern (.waitKey _) ⟨h.top, h.low, rfl⟩ (by simp)

/-- waiting changes neither the program counter nor memory -/
theorem waited (h : s.AwaitsKey) (es : List Event) : (s.waited es).AwaitsKey := ⟨h.inside, h.top, h.low⟩

/-- nothing stands against Fx0A -/
theorem step (h : s.AwaitsKey) : Effect.step p s = .ok (.waitKey (Word.x s.word)) (s.next p) := by
  refine Effect.step_eq_ok.2 ⟨?_, h.instruction.symm, rfl⟩
  rw [obstacle?, if_pos h.inside, h.instruction]
  rfl

/-- a cycle without a key goes back to where it started, and is counted -/
theorem next_of_no_key (h : s.AwaitsKey) (hkeys : ∀ k, s.cpu.keys.get k = false) : s.next p = s.counted := by
  have hnone : s.fetched.cpu.firstKey = none := Cpu.firstKey_eq_none.2 hkeys
  rw [next, h.instruction]
  simp only [Instruction.outcome, Cpu.keyTaken, hnone]
  rfl

/-- a cycle that finds keys pressed takes the lowest of them -/
theorem next_of_key (h : s.AwaitsKey) {k : Fin 16} (hkey : s.cpu.firstKey = some k) :
    s.next p =
      (s.withCpu { s.cpu.setReg (Word.x s.word) (UInt8.ofNat k.val) with pc := s.cpu.pc + 2 }).counted := by
  have hsome : s.fetched.cpu.firstKey = some k := hkey
  rw [next, h.instruction]
  simp only [Instruction.outcome, Cpu.keyTaken, hsome]
  rfl

/-- **One event of a wait** does what it does outside the program: a cycle without a key is counted and no more. -/
theorem apply (h : s.AwaitsKey) (hkeys : e = .step → ∀ k, s.cpu.keys.get k = false) : e.apply p s = s.waited [e] := by
  by_cases he : e = .step
  · have hsame : s.pressedAfter [.step] = s.pressedAfter [] := rfl
    rw [he, Event.apply, left_of_ok h.step, h.next_of_no_key (hkeys he)]
    rw [State.waited, hsame, ofFn_pressedAfter_nil]
    rfl
  · exact apply_eq_waited he

/-- **Events of a wait**, one after the other: the state is the first one with what happened outside the program. -/
theorem after (h : s.AwaitsKey) (hquiet : s.NoKeyAtCycles p es) : s.after p es = s.waited es := by
  induction es generalizing s with
  | nil =>
    rw [State.waited, ofFn_pressedAfter_nil]
    rfl
  | cons e es ih =>
    obtain ⟨hfirst, hrest⟩ := hquiet
    have hone : e.apply p s = s.waited [e] := h.apply hfirst
    rw [hone] at hrest
    calc s.after p (e :: es) = (e.apply p s).after p es := rfl
      _ = (s.waited [e]).after p es := by rw [hone]
      _ = (s.waited [e]).waited es := ih (h.waited [e]) hrest
      _ = s.waited (e :: es) := waited_waited s [e] es

/-- every cycle of a wait carries out Fx0A -/
theorem log (h : s.AwaitsKey) (hquiet : s.NoKeyAtCycles p es) :
    s.log p es = List.replicate (es.count .step) (.waitKey (Word.x s.word)) := by
  induction es generalizing s with
  | nil => rfl
  | cons e es ih =>
    obtain ⟨hfirst, hrest⟩ := hquiet
    have hone : e.apply p s = s.waited [e] := h.apply hfirst
    rw [hone] at hrest
    rw [State.log, hone, ih (h.waited [e]) hrest]
    cases e with
    | step =>
      simp only [Event.carriesOut, h.step, List.count_cons_self, List.replicate_succ]
      rfl
    | tick | key =>
      simp only [Event.carriesOut, List.count_cons_of_ne, ne_eq, reduceCtorEq, not_false_eq_true]
      rfl

/-- the cycle that finds keys pressed after a wait takes the lowest of them -/
theorem step_of_key (h : s.AwaitsKey) (hkey : ∃ k, s.cpu.keys.get k = true) :
    ∃ k, s.cpu.keys.get k = true ∧ (∀ j < k, s.cpu.keys.get j = false) ∧
      Effect.step p s = .ok (.waitKey (Word.x s.word))
        (s.withCpu { s.cpu.setReg (Word.x s.word) (UInt8.ofNat k.val) with pc := s.cpu.pc + 2 }).counted := by
  cases hfirst : s.cpu.firstKey with
  | none =>
    obtain ⟨k, hk⟩ := hkey
    rw [Cpu.firstKey_eq_none.1 hfirst k] at hk
    cases hk
  | some k =>
    obtain ⟨hk, hlower⟩ := Cpu.firstKey_eq_some.1 hfirst
    refine ⟨k, hk, hlower, ?_⟩
    rw [h.step, h.next_of_key hfirst]

end AwaitsKey

end State

variable {p : Profile} {s : State} {es : List Event}

/-- **A wait for a key is stable.** Let the word at the program counter be Fx0A, and let cycles, timer ticks and keys
follow, no key being pressed whenever a cycle comes up. Then after each of these events the state is the first one but
for the timers, which have counted down once for every tick, the keys, each of which is as it was set last, and the
number of cycles; and every cycle has carried out Fx0A. If keys are pressed then, the next cycle puts the lowest of them
into Vx, goes on to the next word, is counted, and changes nothing else. -/
theorem wait_is_stable (h : s.AwaitsKey) (hquiet : s.NoKeyAtCycles p es) :
    (∀ es', es' <+: es → s.after p es' = s.waited es') ∧
    s.log p es = List.replicate (es.count .step) (.waitKey (Word.x s.word)) ∧
    ((∃ k, (s.after p es).cpu.keys.get k = true) →
      ∃ k, (s.after p es).cpu.keys.get k = true ∧ (∀ j < k, (s.after p es).cpu.keys.get j = false) ∧
        Effect.step p (s.after p es) = .ok (.waitKey (Word.x s.word)) ((s.after p es).withCpu
          { (s.after p es).cpu.setReg (Word.x s.word) (UInt8.ofNat k.val) with pc := s.cpu.pc + 2 }).counted) := by
  refine ⟨?_, h.log hquiet, ?_⟩
  · intro es' hprefix
    exact h.after (hquiet.of_prefix hprefix)
  · intro hkey
    rw [h.after hquiet] at hkey ⊢
    exact (h.waited es).step_of_key hkey

/-- a processor at F30A, in the last word of memory -/
def waiting : State where
  cpu := { pc := 2 }
  memory := ⟨#[0x00, 0xE0, 0xF3, 0x0A]⟩
  screen := .dark 8 8
  rng := .ofSeed 0

/-- a key that goes down and up between two cycles, and two keys after the second -/
def strokes : List Event := [.step, .key 5 true, .key 5 false, .tick, .step, .key 9 true, .key 4 true]

theorem waiting_takes_key :
    waiting.AwaitsKey ∧ waiting.NoKeyAtCycles {} strokes ∧ waiting.after {} strokes = waiting.waited strokes ∧
      waiting.log {} strokes = [.waitKey 3, .waitKey 3] ∧
      ∃ t, Effect.step {} (waiting.after {} strokes) = .ok (.waitKey 3) t ∧ t.cpu.v.get 3 = 4 ∧ t.cpu.pc = 4 := by
  have hawaits : waiting.AwaitsKey := ⟨by decide, by decide, by decide⟩
  have hquiet : waiting.NoKeyAtCycles {} strokes := by
    refine ⟨fun _ => ?_, nofun, nofun, nofun, fun _ => ?_, nofun, nofun, trivial⟩
    · decide
    · decide +kernel
  obtain ⟨hstate, hlog, hkey⟩ := wait_is_stable hawaits hquiet
  obtain ⟨k, hk, hlower, hstep⟩ := hkey ⟨9, by decide +kernel⟩
  have hlowest : (waiting.after {} strokes).cpu.firstKey = some 4 := by decide +kernel
  have hfour : k = 4 := Option.some_injective _ ((Cpu.firstKey_eq_some.2 ⟨hk, hlower⟩).symm.trans hlowest)
  refine ⟨hawaits, hquiet, hstate strokes List.prefix_rfl, hlog, _, hstep, ?_, rfl⟩
  rw [hfour]
  decide +kernel

end Chip8
