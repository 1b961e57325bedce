/-
Registers kept in memory. Fx55 writes V0 to Vx from I on, Fx65 reads them back, and in between anything may happen to
the processor: cycles that succeed or fail, beats of the timer clock, keys. What was kept is still there as long as
none of it is written over (`State.Spares`).

- `Event.byte_apply`, `State.byte_after`: a byte that is not written stays, through one event and through many.
- `Instruction.Done.stored`, `Instruction.Done.restored`: what Fx55 and Fx65 do.
- `stored_registers_come_back`: the one, any such run, and the other.
-/
import Chip8.Proofs.Footprint
import Chip8.Proofs.Nesting

namespace Chip8

open Act

/-! ## Bytes that are not written -/

/-- the event writes at an address: it is a cycle that is carried out, and the word of the cycle stores there -/
def Event.Writes (p : Profile) (s : State) (e : Event) (a : Nat) : Prop :=
  (e.carriesOut p s).isSome ∧ ∃ k, Word.Stores s.word k ∧ s.cpu.i ≤ a ∧ a < s.cpu.i + k

/-- nothing in the course of events writes at an address -/
def State.Spares (p : Profile) (a : Nat) (s : State) : List Event → Prop
  | [] => True
  | e :: es => ¬ e.Writes p s a ∧ Spares p a (e.apply p s) es

namespace Event

variable {p : Profile} {s : State} {e : Event} {a : Nat}

/-- only a cycle that is carried out changes memory -/
theorem memory_of_none (h : e.carriesOut p s = none) : (e.apply p s).memory = s.memory := by
  obtain ⟨pc, delay, sound, keys, hleft⟩ := apply_of_none h
  rw [hleft]
  rfl

theorem size_apply (p : Profile) (s : State) (e : Event) : (e.apply p s).memory.size = s.memory.size := by
  cases hdone : e.carriesOut p s with
  | none => rw [memory_of_none hdone]
  | some ins => exact (step_frame (carriesOut_eq_some.1 hdone).2).size

theorem not_writes_of_top (h : Word.top s.word ≠ 0xF) : ¬ e.Writes p s a := by
  rintro ⟨-, k, hstores, -⟩
  cases hstores with
  | decimal htop _ => exact h htop
  | store htop _ => exact h htop

theorem byte_apply (h : ¬ e.Writes p s a) : (e.apply p s).memory.byte a = s.memory.byte a := by
  cases hdone : e.carriesOut p s with
  | none => rw [memory_of_none hdone]
  | some ins =>
    by_contra hne
    have hdone' : (e.carriesOut p s).isSome := by rw [hdone]; rfl
    exact h ⟨hdone', (step_frame (carriesOut_eq_some.1 hdone).2).memory a hne⟩

end Event

namespace State

variable {p : Profile} {s : State} {a : Nat}

theorem size_after (p : Profile) (s : State) (es : List Event) : (s.after p es).memory.size = s.memory.size := by
  induction es generalizing s with
  | nil => rfl
  | cons e es ih => exact (ih _).trans (e.size_apply p s)

theorem byte_after {es : List Event} (h : s.Spares p a es) : (s.after p es).memory.byte a = s.memory.byte a := by
  induction es generalizing s with
  | nil => rfl
  | cons e es ih => exact (ih h.2).trans (Event.byte_apply h.1)

end State

/-! ## Storing and loading -/

theorem Cpu.getElem?_firstRegs {c : Cpu} {x r : Fin 16} (h : r ≤ x) : (c.firstRegs x)[r.val]? = some (c.reg r) := by
  have hr : r.val < x.val + 1 := Nat.lt_succ_of_le h
  unfold firstRegs reg
  rw [List.getElem?_take_of_lt hr]
  simp

/-- an instruction is carried out, by itself or by the cycle that fetches it -/
inductive Instruction.Done (p : Profile) (ins : Instruction) (s t : State) : Prop where
  | alone : Effect.execute p ins s = .ok () t → Done p ins s t
  | cycle : Effect.step p s = .ok ins t → Done p ins s t

/-- I after V0 to Vx have been stored or loaded -/
def State.indexAfter (p : Profile) (x : Fin 16) (s : State) : Int :=
  if p.dialect.transferAdvancesI then (s.cpu.i + (x.val + 1 : Nat)) % 0x10000 else s.cpu.i

/-- V0 to Vx have been stored from I on -/
structure State.Stored (p : Profile) (x : Fin 16) (s t : State) : Prop where
  start_nonneg : 0 ≤ s.cpu.i
  end_lt : s.cpu.i + x.val < s.memory.size
  stored : ∀ r ≤ x, t.memory.byte (s.cpu.i.toNat + r.val) = s.cpu.reg r
  others : ∀ a : Nat, a < s.cpu.i ∨ s.cpu.i + x.val < a → t.memory.byte a = s.memory.byte a
  size : t.memory.size = s.memory.size
  index : t.cpu.i = s.indexAfter p x

/-- V0 to Vx have been loaded, and have the values from `kept` -/
structure State.Restored (p : Profile) (x : Fin 16) (kept : Cpu) (s t : State) : Prop where
  restored : ∀ r ≤ x, t.cpu.reg r = kept.reg r
  others : ∀ r, x < r → t.cpu.reg r = s.cpu.reg r
  memory : t.memory = s.memory
  index : t.cpu.i = s.indexAfter p x

namespace Instruction.Done

variable {p : Profile} {s t : State} {x : Fin 16}

/-- an instruction starts from its own address or from behind it, and is counted or not -/
theorem exists_outcome {ins : Instruction} (h : ins.Done p s t) :
    ∃ pc cycles, ins.obstacle? p (s.withCpu { s.cpu with pc := pc }) = none ∧
      t = { ins.outcome p (s.withCpu { s.cpu with pc := pc }) with cycles := cycles } := by
  cases h with
  | alone h =>
    rw [Effect.execute_eq] at h
    cases hclear : ins.obstacle? p s with
    | some f =>
      rw [hclear] at h
      cases h
    | none =>
      rw [hclear] at h
      cases h
      exact ⟨s.cpu.pc, (ins.outcome p s).cycles, hclear, rfl⟩
  | cycle h =>
    obtain ⟨hclear, rfl, rfl⟩ := Effect.step_eq_ok.1 h
    unfold State.obstacle? at hclear
    split_ifs at hclear
    exact ⟨s.cpu.pc + 2, _, hclear, rfl⟩

theorem of_store (h : (store x).Done p s t) :
    s.memory.window? s.cpu.i (x.val + 1) = none ∧ t.memory = s.memory.write s.cpu.i.toNat (s.cpu.firstRegs x) ∧
      t.cpu.i = s.indexAfter p x := by
  obtain ⟨pc, cycles, hclear, rfl⟩ := h.exists_outcome
  exact ⟨hclear, rfl, rfl⟩

theorem of_restore (h : (restore x).Done p s t) :
    s.memory.window? s.cpu.i (x.val + 1) = none ∧ t.memory = s.memory ∧
      t.cpu.v = (s.cpu.setFirstRegs (s.memory.read s.cpu.i.toNat (x.val + 1))).v ∧ t.cpu.i = s.indexAfter p x := by
  obtain ⟨pc, cycles, hclear, rfl⟩ := h.exists_outcome
  exact ⟨hclear, rfl, rfl, Instruction.outcome_i _ _ (restore x)⟩

theorem stored (h : (store x).Done p s t) : s.Stored p x t := by
  obtain ⟨hclear, hmemory, hindex⟩ := h.of_store
  obtain ⟨hstart, hend⟩ := Memory.window?_eq_none.1 hclear
  have hlength := s.cpu.length_firstRegs x
  refine ⟨hstart, by omega, fun r hr => ?_, fun a ha => ?_, ?_, hindex⟩
  · have hr' : r.val < (s.cpu.firstRegs x).length := by
      rw [hlength]
      exact Nat.lt_succ_of_le hr
    have hreg := s.cpu.getElem?_firstRegs hr
    rw [List.getElem?_eq_getElem hr', Option.some_inj] at hreg
    rw [hmemory, s.memory.byte_write_of_mem r.val hr' (by omega), hreg]
  · rw [hmemory, s.memory.byte_write_of_not_mem (by omega)]
  · rw [hmemory, Memory.size_write]

/-- what has been loaded is what memory holds from I on -/
theorem restored {kept : Cpu} (h : (restore x).Done p s t)
    (hkept : ∀ r ≤ x, s.memory.byte (s.cpu.i.toNat + r.val) = kept.reg r) : s.Restored p x kept t := by
  obtain ⟨hclear, hmemory, hv, hindex⟩ := h.of_restore
  obtain ⟨-, hfits⟩ := Memory.fits_of_window? hclear
  have hreg (r : Fin 16) : t.cpu.reg r =
      ((s.memory.read s.cpu.i.toNat (x.val + 1))[r.val]?).getD (s.cpu.reg r) := by
    rw [← Cpu.reg_setFirstRegs]
    unfold Cpu.reg
    rw [hv]
  refine ⟨fun r hr => ?_, fun r hr => ?_, hmemory, hindex⟩
  · rw [hreg, Memory.getElem?_read hfits, if_pos (Nat.lt_succ_of_le hr), Option.getD_some, hkept r hr]
  · have hr : x.val < r.val := hr
    rw [hreg, Memory.getElem?_read hfits, if_neg (by omega), Option.getD_none]

end Instruction.Done

/-- an instruction goes through by itself, and by a cycle, if nothing stands against it in either state -/
theorem State.succeeds_of_clear {p : Profile} {s : State} {ins : Instruction} (halone : ins.obstacle? p s = none)
    (hfetched : ins.obstacle? p s.fetched = none) :
    (∃ t, Effect.execute p ins s = .ok () t) ∧
      (s.cpu.pc + 1 < s.memory.size → s.instruction = ins → ∃ t, Effect.step p s = .ok ins t) := by
  constructor
  · rw [Effect.execute_eq, halone]
    exact ⟨_, rfl⟩
  · intro hroom hins
    have hobstacle : s.obstacle? p = none := by rw [State.obstacle?, if_pos hroom, hins, hfetched]
    exact ⟨_, Effect.step_eq_ok.2 ⟨hobstacle, hins.symm, rfl⟩⟩

/-- nothing stands against loading from inside memory, by itself or by a cycle -/
theorem State.restore_succeeds {p : Profile} {s : State} {x : Fin 16}
    (hclear : s.memory.window? s.cpu.i (x.val + 1) = none) :
    (∃ t, Effect.execute p (.restore x) s = .ok () t) ∧
      (s.cpu.pc + 1 < s.memory.size → s.instruction = .restore x → ∃ t, Effect.step p s = .ok (.restore x) t) :=
  State.succeeds_of_clear hclear hclear

/-- **Stored registers come back.** From every state, for every x and under every dialect: after Fx55 has been carried
out, by itself or by a cycle, the bytes from I on are V0 to Vx, all of them inside memory, and no other byte has
changed. Then let there be any events that write none of these bytes, and any state with the memory that they leave and
with I as it was: Fx65 succeeds in it, sets V0 to Vx to what was stored, and changes no other register and no byte.
Both move I behind the last byte, modulo 65536, or leave it, as the dialect has it. -/
theorem stored_registers_come_back {p : Profile} {s t : State} {x : Fin 16} (h : (Instruction.store x).Done p s t) :
    s.Stored p x t ∧
    ∀ es : List Event, (∀ a : Nat, s.cpu.i ≤ a → a ≤ s.cpu.i + x.val → t.Spares p a es) →
      ∀ u : State, u.memory = (t.after p es).memory → u.cpu.i = s.cpu.i →
        (∃ v, Effect.execute p (.restore x) u = .ok () v) ∧
        (u.cpu.pc + 1 < u.memory.size → u.instruction = .restore x → ∃ v, Effect.step p u = .ok (.restore x) v) ∧
        ∀ v, (Instruction.restore x).Done p u v → u.Restored p x s.cpu v := by
  have hstored := h.stored
  have hstart := hstored.start_nonneg
  have hend := hstored.end_lt
  refine ⟨hstored, fun es hspared u hmemory hindex => ?_⟩
  have hsize : u.memory.size = s.memory.size := by rw [hmemory, State.size_after, hstored.size]
  have hclear : u.memory.window? u.cpu.i (x.val + 1) = none := Memory.window?_eq_none.2 (by omega)
  have hkept (r : Fin 16) (hr : r ≤ x) : u.memory.byte (u.cpu.i.toNat + r.val) = s.cpu.reg r := by
    have hr' : r.val ≤ x.val := hr
    rw [hmemory, hindex, State.byte_after (hspared _ (by omega) (by omega)), hstored.stored r hr]
  obtain ⟨halone, hcycle⟩ := State.restore_succeeds hclear
  exact ⟨halone, hcycle, fun v hv => hv.restored hkept⟩

/-- V0 and V1 are stored behind the program, V0 is overwritten, and both are loaded -/
def State.keeping : State where
  cpu := { v := Vector.replicate 16 7, i := 8 }
  memory := ⟨#[0xF1, 0x55, 0xA0, 0x08, 0x60, 0x09, 0xF1, 0x65, 0, 0]⟩
  screen := .dark 8 8
  rng := .ofSeed 0

theorem keeping_comes_back :
    ∃ t u v, Effect.step {} State.keeping = .ok (.store 1) t ∧ u = t.after {} [.step, .tick, .step] ∧
      u.cpu.reg 0 = 9 ∧ Effect.step {} u = .ok (.restore 1) v ∧ v.cpu.reg 0 = 7 ∧ v.cpu.i = 10 := by
  let t := State.keeping.next {}
  let u := t.after {} [.step, .tick, .step]
  have hstep : Effect.step {} State.keeping = .ok (.store 1) t :=
    Effect.step_eq_ok.2 ⟨by decide +kernel, by decide +kernel, rfl⟩
  have hindex : u.cpu.i = State.keeping.cpu.i := by decide +kernel
  have hspared (a : Nat) : t.Spares {} a [.step, .tick, .step] :=
    ⟨Event.not_writes_of_top (by decide +kernel), Event.not_writes_of_top (by decide +kernel),
      Event.not_writes_of_top (by decide +kernel), trivial⟩
  obtain ⟨-, hback⟩ := stored_registers_come_back (.cycle hstep)
  obtain ⟨-, hcycle, hrestored⟩ := hback _ (fun a _ _ => hspared a) u rfl hindex
  obtain ⟨v, hv⟩ := hcycle (by decide +kernel) (by decide +kernel)
  obtain ⟨hregs, -, -, hi⟩ := hrestored v (.cycle hv)
  have hi : v.cpu.i = (u.cpu.i + (1 + 1 : Nat)) % 0x10000 := hi
  rw [hindex] at hi
  exact ⟨t, u, v, hstep, rfl, by decide +kernel, hv, hregs 0 (Fin.zero_le _), hi⟩

end Chip8
