/-
What one instruction does, with its checks apart from its changes. `Instruction.obstacle?` names the fault that stands
against carrying an instruction out in a state, and `Instruction.outcome` is the state it leads to if none does.

- `execute_eq`: carrying out an instruction is to look for an obstacle first and to change the state after that. So an
  instruction that fails has changed nothing.
- `step_eq`: one cycle, in the same form.
- `step_eq_ok`, `step_eq_error`: how a cycle succeeds and how it fails; what a cycle does is read off here and nowhere
  else.
-/
import Mathlib.Tactic
import Chip8.Execute
import Chip8.Proofs.Act

namespace Chip8

open Act

/-! ## Obstacles -/

/-- what stands against using `length` bytes from `i` on -/
def Memory.window? (m : Memory) (i : Int) (length : Nat) : Option Fault :=
  if i < 0 then some (.addressOutOfBounds i m.size)
  else if m.size < i + length then some (.addressOutOfBounds (max i m.size) m.size)
  else none

/-- what stands against going on at an address -/
def Memory.target? (m : Memory) (target : Nat) : Option Fault :=
  if target < m.size then none else some (.addressOutOfBounds target m.size)

/-- what stands against carrying an instruction out -/
def Instruction.obstacle? (p : Profile) (s : State) : Instruction → Option Fault
  | .ret => if s.cpu.stack.top.val = 0 then some .stackUnderflow else none
  | .jump addr => s.memory.target? addr.val
  | .call addr => (s.memory.target? addr.val).or (if s.cpu.stack.top.val = 15 then some .stackOverflow else none)
  | .jumpOffset addr => s.memory.target? (addr.val + (s.cpu.reg (p.dialect.offsetReg addr)).toNat)
  | .draw _ _ n => s.memory.window? s.cpu.i n.val
  | .decimal _ => s.memory.window? s.cpu.i 3
  | .store x | .restore x => s.memory.window? s.cpu.i (x.val + 1)
  | .skipKey x | .skipNoKey x =>
    if (s.cpu.reg x).toNat < 16 then none else some (.noSuchKey (s.cpu.reg x).toNat)
  | .readDelay _ => if 0 ≤ s.cpu.delay ∧ s.cpu.delay < 256 then none else some (.notAByte s.cpu.delay)
  | .unknown word => some (.unsupportedOpcode word)
  | _ => none

/-! ## Outcomes -/

/-- the stack with the low sixteen bits of a value on top, if there is room -/
def CallStack.pushed (s : CallStack) (value : Int) : CallStack :=
  if h : s.top.val + 1 < 16 then
    { slots := s.slots.set (s.top.val + 1) (value % 0x10000).toNat, top := ⟨s.top.val + 1, h⟩ }
  else s

theorem CallStack.top_pred_lt (s : CallStack) : s.top.val - 1 < 16 := by omega

/-- the stack without its newest entry; the slot keeps its value -/
def CallStack.popped (s : CallStack) : CallStack := { s with top := ⟨s.top.val - 1, s.top_pred_lt⟩ }

namespace Cpu

/-- the key of this number is pressed; numbers without a key never are -/
def isDown (c : Cpu) (k : Nat) : Bool := c.keys[k]?.getD false

theorem length_firstRegs (c : Cpu) (x : Fin 16) : (c.firstRegs x).length = x.val + 1 := by
  unfold firstRegs
  rw [List.length_take, Vector.length_toList]
  omega

/-- the processor after leaving out the next instruction if the condition holds -/
def skipped (c : Cpu) (condition : Bool) : Cpu := { c with pc := if condition then c.pc + 2 else c.pc }

/-- the processor with VF set if there is a flag to set -/
def flagged (c : Cpu) (on : Option Bool) : Cpu :=
  { c with v := match on with
      | some on => (c.setReg flag (if on then 1 else 0)).v
      | none => c.v }

/-- the processor with I moved past bytes just used, if the dialect does that -/
def advanced (c : Cpu) (d : Dialect) (count : Nat) : Cpu :=
  { c with i := if d.transferAdvancesI then (c.i + count) % 0x10000 else c.i }

/-- the processor after looking for a key: the lowest one pressed in Vx, or back at the instruction -/
def keyTaken (c : Cpu) (x : Fin 16) : Cpu :=
  { c with
    v := match c.firstKey with
      | some k => (c.setReg x (UInt8.ofNat k.val)).v
      | none => c.v
    pc := if c.firstKey = none then c.pc - 2 else c.pc }

end Cpu

def State.withCpu (s : State) (c : Cpu) : State := { s with cpu := c }

/-- the state after drawing the sprite at I -/
def State.drawn (s : State) (clip : Bool) (x y n : Fin 16) : State :=
  let rows := (s.memory.read s.cpu.i.toNat n.val).map fun b => (b.toNat : Int)
  let result := s.screen.draw (s.cpu.reg x).toNat (s.cpu.reg y).toNat rows clip
  { s with screen := result.1, cpu := s.cpu.flagged (some result.2) }

/-- the state that an instruction leads to if nothing stands against it -/
def Instruction.outcome (p : Profile) (s : State) : Instruction → State
  | .sys _ | .unknown _ => s
  | .clear => { s with screen := s.screen.clear }
  | .ret => s.withCpu { s.cpu with stack := s.cpu.stack.popped, pc := s.cpu.stack.slots[s.cpu.stack.top] }
  | .jump addr => s.withCpu { s.cpu with pc := addr.val }
  | .call addr => s.withCpu { s.cpu with stack := s.cpu.stack.pushed s.cpu.pc, pc := addr.val }
  | .skipEq x byte => s.withCpu (s.cpu.skipped (s.cpu.reg x == byte))
  | .skipNe x byte => s.withCpu (s.cpu.skipped (s.cpu.reg x != byte))
  | .skipEqReg x y => s.withCpu (s.cpu.skipped (s.cpu.reg x == s.cpu.reg y))
  | .skipNeReg x y => s.withCpu (s.cpu.skipped (s.cpu.reg x != s.cpu.reg y))
  | .load x byte => s.withCpu (s.cpu.setReg x byte)
  | .add x byte => s.withCpu (s.cpu.setReg x (s.cpu.reg x + byte))
  | .arith op x y =>
    let result := op.apply p.dialect (s.cpu.reg x) (s.cpu.reg y)
    s.withCpu ((s.cpu.setReg x result.1).flagged result.2)
  | .loadIndex addr => s.withCpu { s.cpu with i := addr.val }
  | .jumpOffset addr =>
    s.withCpu { s.cpu with pc := addr.val + (s.cpu.reg (p.dialect.offsetReg addr)).toNat }
  | .random x mask => { s with rng := s.rng.byte.2, cpu := s.cpu.setReg x (s.rng.byte.1 &&& mask) }
  | .draw x y n => s.drawn p.dialect.spritesClip x y n
  | .skipKey x => s.withCpu (s.cpu.skipped (s.cpu.isDown (s.cpu.reg x).toNat))
  | .skipNoKey x => s.withCpu (s.cpu.skipped (!s.cpu.isDown (s.cpu.reg x).toNat))
  | .readDelay x => s.withCpu (s.cpu.setReg x (UInt8.ofNat s.cpu.delay.toNat))
  | .waitKey x => s.withCpu (s.cpu.keyTaken x)
  | .setDelay x => s.withCpu { s.cpu with delay := (s.cpu.reg x).toNat }
  | .setSound x => s.withCpu { s.cpu with sound := (s.cpu.reg x).toNat }
  | .addIndex x => s.withCpu { s.cpu with i := (s.cpu.i + (s.cpu.reg x).toNat) % 0x10000 }
  | .glyph x => s.withCpu { s.cpu with i := p.fontAddress + (s.cpu.reg x).toNat % 16 * Font.glyphSize }
  | .decimal x => { s with memory := s.memory.write s.cpu.i.toNat (decimalDigits (s.cpu.reg x)) }
  | .store x =>
    { s with
      memory := s.memory.write s.cpu.i.toNat (s.cpu.firstRegs x), cpu := s.cpu.advanced p.dialect (x.val + 1) }
  | .restore x =>
    s.withCpu ((s.cpu.setFirstRegs (s.memory.read s.cpu.i.toNat (x.val + 1))).advanced p.dialect (x.val + 1))

/-! ## What an instruction leaves alone

One field of the state at a time: the instructions that change it, and what they make of it. -/

section Fields

attribute [local simp] State.withCpu State.drawn Cpu.skipped Cpu.flagged Cpu.advanced Cpu.keyTaken Cpu.setReg
  Cpu.setFirstRegs

variable (p : Profile) (s : State) (ins : Instruction)

theorem Instruction.outcome_delay :
    (ins.outcome p s).cpu.delay = match ins with
      | .setDelay x => ((s.cpu.reg x).toNat : Int)
      | _ => s.cpu.delay := by
  cases ins <;> simp [outcome]

theorem Instruction.outcome_sound :
    (ins.outcome p s).cpu.sound = match ins with
      | .setSound x => ((s.cpu.reg x).toNat : Int)
      | _ => s.cpu.sound := by
  cases ins <;> simp [outcome]

theorem Instruction.outcome_stack :
    (ins.outcome p s).cpu.stack = match ins with
      | .ret => s.cpu.stack.popped
      | .call _ => s.cpu.stack.pushed s.cpu.pc
      | _ => s.cpu.stack := by
  cases ins <;> simp [outcome]

theorem Instruction.outcome_i :
    (ins.outcome p s).cpu.i = match ins with
      | .loadIndex addr => (addr.val : Int)
      | .addIndex x => (s.cpu.i + (s.cpu.reg x).toNat) % 0x10000
      | .glyph x => p.fontAddress + (s.cpu.reg x).toNat % 16 * Font.glyphSize
      | .store x | .restore x =>
        if p.dialect.transferAdvancesI then (s.cpu.i + (x.val + 1 : Nat)) % 0x10000 else s.cpu.i
      | _ => s.cpu.i := by
  cases ins <;> simp [outcome]

theorem Instruction.outcome_pc :
    (ins.outcome p s).cpu.pc = match ins with
      | .ret => s.cpu.stack.slots[s.cpu.stack.top]
      | .jump addr | .call addr => addr.val
      | .jumpOffset addr => addr.val + (s.cpu.reg (p.dialect.offsetReg addr)).toNat
      | .skipEq x byte => if s.cpu.reg x == byte then s.cpu.pc + 2 else s.cpu.pc
      | .skipNe x byte => if s.cpu.reg x != byte then s.cpu.pc + 2 else s.cpu.pc
      | .skipEqReg x y => if s.cpu.reg x == s.cpu.reg y then s.cpu.pc + 2 else s.cpu.pc
      | .skipNeReg x y => if s.cpu.reg x != s.cpu.reg y then s.cpu.pc + 2 else s.cpu.pc
      | .skipKey x => if s.cpu.isDown (s.cpu.reg x).toNat then s.cpu.pc + 2 else s.cpu.pc
      | .skipNoKey x => if !s.cpu.isDown (s.cpu.reg x).toNat then s.cpu.pc + 2 else s.cpu.pc
      | .waitKey _ => if s.cpu.firstKey = none then s.cpu.pc - 2 else s.cpu.pc
      | _ => s.cpu.pc := by
  cases ins <;> simp [outcome]

theorem Instruction.outcome_memory :
    (ins.outcome p s).memory = match ins with
      | .decimal x => s.memory.write s.cpu.i.toNat (decimalDigits (s.cpu.reg x))
      | .store x => s.memory.write s.cpu.i.toNat (s.cpu.firstRegs x)
      | _ => s.memory := by
  cases ins <;> simp [outcome]

theorem Instruction.outcome_screen :
    (ins.outcome p s).screen = match ins with
      | .clear => s.screen.clear
      | .draw x y n => (s.drawn p.dialect.spritesClip x y n).screen
      | _ => s.screen := by
  cases ins <;> simp [outcome]

theorem Instruction.outcome_keys : (ins.outcome p s).cpu.keys = s.cpu.keys := by
  cases ins <;> simp [outcome]

theorem Instruction.outcome_rng :
    (ins.outcome p s).rng = match ins with
      | .random _ _ => s.rng.byte.2
      | _ => s.rng := by
  cases ins <;> simp [outcome]

/-- an instruction counts no cycle; the cycle that carries it out does -/
theorem Instruction.outcome_cycles : (ins.outcome p s).cycles = s.cycles := by
  cases ins <;> simp [outcome]

end Fields

/-! ## Checks as they run -/

namespace Effect

theorem reg_apply (x : Fin 16) (s : State) : reg x s = .ok (s.cpu.reg x) s := rfl

theorem onCpu_apply (f : Cpu → Cpu) (s : State) : onCpu f s = .ok () (s.withCpu (f s.cpu)) := rfl

theorem readWindow_apply (length : Nat) (s : State) :
    readWindow length s = .ok (s.memory.read s.cpu.i.toNat length) s := rfl

theorem skipIf_apply (condition : Bool) (s : State) :
    skipIf condition s = .ok () (s.withCpu (s.cpu.skipped condition)) := by
  cases condition <;> rfl

theorem advanceIndex_apply (d : Dialect) (count : Nat) (s : State) :
    advanceIndex d count s = .ok () (s.withCpu (s.cpu.advanced d count)) := by
  simp only [advanceIndex, Cpu.advanced]
  split_ifs <;> rfl

theorem requireWindow_apply (length : Nat) (s : State) :
    requireWindow length s = match s.memory.window? s.cpu.i length with
      | some f => .error f s
      | none => .ok () s := by
  simp only [requireWindow, bind_apply, get_apply, Memory.check, Memory.window?]
  split_ifs <;> rfl

theorem requireTarget_apply (target : Nat) (s : State) :
    requireTarget target s = match s.memory.target? target with
      | some f => .error f s
      | none => .ok () s := by
  simp only [requireTarget, bind_apply, get_apply, Memory.checkTarget, Memory.target?]
  split_ifs <;> rfl

theorem push_apply (value : Int) (s : State) :
    push value s =
      if s.cpu.stack.top.val = 15 then .error .stackOverflow s
      else .ok () (s.withCpu { s.cpu with stack := s.cpu.stack.pushed value }) := by
  simp only [push, bind_apply, get_apply, CallStack.push, CallStack.pushed]
  have htop := s.cpu.stack.top.isLt
  by_cases h : s.cpu.stack.top.val + 1 < 16
  · rw [dif_pos h, if_neg (by omega), dif_pos h]
    rfl
  · rw [dif_neg h, if_pos (by omega)]
    rfl

theorem pop_apply (s : State) :
    pop s =
      if s.cpu.stack.top.val = 0 then .error .stackUnderflow s
      else .ok s.cpu.stack.slots[s.cpu.stack.top] (s.withCpu { s.cpu with stack := s.cpu.stack.popped }) := by
  simp only [pop, bind_apply, get_apply, CallStack.pop]
  split_ifs <;> rfl

theorem keyPressed_apply (k : Nat) (s : State) :
    keyPressed k s = if k < 16 then .ok (s.cpu.isDown k) s else .error (.noSuchKey k) s := by
  by_cases h : k < 16
  · have hk : Cpu.key k = .ok ⟨k, h⟩ := by simp [Cpu.key, h]
    have hdown : s.cpu.isDown k = s.cpu.keys[k] := by simp [Cpu.isDown, h]
    rw [if_pos h, hdown]
    simp only [keyPressed, bind_apply, get_apply, Cpu.keyPressed, hk]
    rfl
  · have hk : Cpu.key k = .error (.noSuchKey k) := by simp [Cpu.key, h]
    rw [if_neg h]
    simp only [keyPressed, bind_apply, get_apply, Cpu.keyPressed, hk]
    rfl

theorem waitKey_apply (x : Fin 16) (s : State) : waitKey x s = .ok () (s.withCpu (s.cpu.keyTaken x)) := by
  simp only [waitKey, bind_apply, get_apply, Cpu.keyTaken]
  cases s.cpu.firstKey <;> rfl

theorem arith_apply (d : Dialect) (op : Arith) (x y : Fin 16) (s : State) :
    arith d op x y s =
      .ok () (s.withCpu ((s.cpu.setReg x (op.apply d (s.cpu.reg x) (s.cpu.reg y)).1).flagged
        (op.apply d (s.cpu.reg x) (s.cpu.reg y)).2)) := by
  simp only [arith, bind_apply, reg_apply, setReg, onCpu_apply]
  cases (op.apply d (s.cpu.reg x) (s.cpu.reg y)).2 <;> rfl

theorem readDelay_apply (s : State) :
    readDelay s =
      if 0 ≤ s.cpu.delay ∧ s.cpu.delay < 256 then .ok (UInt8.ofNat s.cpu.delay.toNat) s
      else .error (.notAByte s.cpu.delay) s := by
  simp only [readDelay, bind_apply, get_apply]
  split_ifs <;> rfl

/-! ## Instructions and cycles -/

/-- carrying out an instruction is to look for what stands against it first, and to change the state after that -/
theorem execute_eq (p : Profile) (ins : Instruction) (s : State) :
    execute p ins s = match ins.obstacle? p s with
      | some f => .error f s
      | none => .ok () (ins.outcome p s) := by
  cases ins with
  | ret =>
    simp only [execute, leave, bind_apply, pop_apply, Instruction.obstacle?]
    split_ifs <;> rfl
  | jump addr =>
    simp only [execute, jump, bind_apply, requireTarget_apply, Instruction.obstacle?]
    cases s.memory.target? addr.val <;> rfl
  | call addr =>
    simp only [execute, enter, bind_apply, requireTarget_apply, Instruction.obstacle?]
    cases s.memory.target? addr.val with
    | some f => rfl
    | none =>
      simp only [get_apply, push_apply, Option.none_or]
      split_ifs <;> rfl
  | skipEq x byte => exact skipIf_apply _ s
  | skipNe x byte => exact skipIf_apply _ s
  | skipEqReg x y => exact skipIf_apply _ s
  | skipNeReg x y => exact skipIf_apply _ s
  | arith op x y => exact arith_apply p.dialect op x y s
  | jumpOffset addr =>
    simp only [execute, jump, bind_apply, reg_apply, requireTarget_apply, Instruction.obstacle?]
    cases s.memory.target? (addr.val + (s.cpu.reg (p.dialect.offsetReg addr)).toNat) <;> rfl
  | draw x y n =>
    simp only [execute, draw, bind_apply, requireWindow_apply, Instruction.obstacle?]
    cases s.memory.window? s.cpu.i n.val <;> rfl
  | skipKey x =>
    simp only [execute, bind_apply, reg_apply, keyPressed_apply, Instruction.obstacle?]
    split_ifs
    · exact skipIf_apply _ s
    · rfl
  | skipNoKey x =>
    simp only [execute, bind_apply, reg_apply, keyPressed_apply, Instruction.obstacle?]
    split_ifs
    · exact skipIf_apply _ s
    · rfl
  | readDelay x =>
    simp only [execute, bind_apply, readDelay_apply, Instruction.obstacle?]
    split_ifs <;> rfl
  | waitKey x => exact waitKey_apply x s
  | decimal x =>
    simp only [execute, bind_apply, requireWindow_apply, Instruction.obstacle?]
    cases s.memory.window? s.cpu.i 3 <;> rfl
  | store x =>
    simp only [execute, bind_apply, requireWindow_apply, Instruction.obstacle?]
    cases s.memory.window? s.cpu.i (x.val + 1) with
    | some f => rfl
    | none => exact advanceIndex_apply p.dialect (x.val + 1) _
  | restore x =>
    simp only [execute, bind_apply, requireWindow_apply, Instruction.obstacle?]
    cases s.memory.window? s.cpu.i (x.val + 1) with
    | some f => rfl
    | none =>
      simp only [readWindow_apply, onCpu_apply, advanceIndex_apply]
      rfl
  | _ => rfl

end Effect

namespace State

def word (s : State) : UInt16 := Word.ofBytes (s.memory.byte s.cpu.pc) (s.memory.byte (s.cpu.pc + 1))

def instruction (s : State) : Instruction := Instruction.decode s.word

/-- the state after the fetch: the program counter is past the instruction -/
def fetched (s : State) : State := s.withCpu { s.cpu with pc := s.cpu.pc + 2 }

/-- the state after an instruction has been counted -/
def counted (s : State) : State := { s with cycles := s.cycles + 1 }

/-- the state after the cycle that carries out the instruction at the program counter -/
def next (p : Profile) (s : State) : State := (s.instruction.outcome p s.fetched).counted

/-- what stands against the next cycle -/
def obstacle? (p : Profile) (s : State) : Option Fault :=
  if s.cpu.pc + 1 < s.memory.size then s.instruction.obstacle? p s.fetched
  else some (.addressOutOfBounds (s.cpu.pc + 1 : Nat) s.memory.size)

/-- the state that a failing cycle leaves: the program counter is past the instruction if there was one -/
def halted (s : State) : State := if s.cpu.pc + 1 < s.memory.size then s.fetched else s

end State

namespace Effect

theorem fetch_apply (s : State) :
    fetch s =
      if s.cpu.pc + 1 < s.memory.size then .ok s.word s.fetched
      else .error (.addressOutOfBounds (s.cpu.pc + 1 : Nat) s.memory.size) s := by
  simp only [fetch, bind_apply, get_apply]
  split_ifs <;> rfl

/-- one cycle is to look for what stands against it first, and to carry out the instruction after that -/
theorem step_eq (p : Profile) (s : State) :
    step p s = match s.obstacle? p with
      | some f => .error f s.halted
      | none => .ok s.instruction (s.next p) := by
  simp only [step, bind_apply, fetch_apply, State.obstacle?, State.halted]
  by_cases h : s.cpu.pc + 1 < s.memory.size
  · simp only [if_pos h, execute_eq, State.instruction]
    cases (Instruction.decode s.word).obstacle? p s.fetched <;> rfl
  · simp only [if_neg h]

theorem step_eq_ok {p : Profile} {s t : State} {ins : Instruction} :
    step p s = .ok ins t ↔ s.obstacle? p = none ∧ ins = s.instruction ∧ t = s.next p := by
  rw [step_eq]
  cases s.obstacle? p with
  | some f => simp
  | none => simp [eq_comm]

theorem step_eq_error {p : Profile} {s t : State} {f : Fault} :
    step p s = .error f t ↔ s.obstacle? p = some f ∧ t = s.halted := by
  rw [step_eq]
  cases s.obstacle? p with
  | some g => simp [eq_comm]
  | none => simp

/-- a cycle that is carried out counts as one -/
theorem cycles_of_step {p : Profile} {s t : State} {ins : Instruction} (h : step p s = .ok ins t) :
    t.cycles = s.cycles + 1 := by
  obtain ⟨-, -, rfl⟩ := step_eq_ok.1 h
  calc (s.next p).cycles = (s.instruction.outcome p s.fetched).cycles + 1 := rfl
    _ = s.cycles + 1 := by rw [s.instruction.outcome_cycles p s.fetched]; rfl

end Effect

end Chip8
