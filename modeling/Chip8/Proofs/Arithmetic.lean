/-
Arithmetic on registers. `Arith.Law` says of each operation on Vx and Vy what it makes of their values: the flag it
leaves in VF, and the equation that ties the flag and the new Vx to the values from before. The flag is written last, so
with VF for Vx the flag is what stays, and both values are read first, so it makes no difference which of Vx, Vy and VF
are one register.

- `Arith.law_apply`: an operation keeps its law.
- `State.computes_of_outcome`: an instruction that changes registers only, by itself and in a cycle.
- `alu_exact`: the words 8xyn and 7xnn.
-/
import Chip8.Proofs.Footprint
import Chip8.Proofs.Sprites

namespace Chip8

open Cpu

/-! ## Bytes -/

namespace Arith

/-- a sum is the byte left of it and its carry -/
theorem sum_exact (a b : UInt8) :
    (a + b).toNat + 256 * (if 255 < a.toNat + b.toNat then 1 else 0) = a.toNat + b.toNat := by
  have ha := a.toNat_lt
  have hb := b.toNat_lt
  rw [UInt8.toNat_add]
  split_ifs <;> omega

/-- a difference is the byte left of it, less what was borrowed -/
theorem difference_exact (a b : UInt8) :
    ((a - b).toNat : Int) = a.toNat - b.toNat + 256 * (1 - if b.toNat ≤ a.toNat then 1 else 0) := by
  have ha := a.toNat_lt
  have hb := b.toNat_lt
  rw [UInt8.toNat_sub]
  split_ifs <;> omega

/-- halving is exact with the lowest bit, which is shifted out -/
theorem half_exact (a : UInt8) : 2 * (a >>> 1).toNat + a.toNat % 2 = a.toNat := by
  have hhalf : (a >>> 1).toNat = a.toNat / 2 := by
    rw [UInt8.toNat_shiftRight]
    simp [Nat.shiftRight_eq_div_pow]
  omega

/-- doubling is exact with the highest bit, which is shifted out -/
theorem double_exact (a : UInt8) : (a <<< 1).toNat + 256 * (a.toNat / 128) = 2 * a.toNat := by
  have ha := a.toNat_lt
  have hdouble : (a <<< 1).toNat = a.toNat * 2 % 256 := by
    rw [UInt8.toNat_shiftLeft]
    simp [Nat.shiftLeft_eq]
  omega

theorem low_bit (a : UInt8) : (if a.toNat % 2 = 1 then 1 else 0) = a.toNat % 2 := by
  split_ifs <;> omega

theorem high_bit (a : UInt8) : (if 128 ≤ a.toNat then 1 else 0) = a.toNat / 128 := by
  have ha := a.toNat_lt
  split_ifs <;> omega

end Arith

/-! ## The laws -/

/-- what is left of a bitwise operation on Vx with the given result -/
structure Dialect.Bitwise (d : Dialect) (x : Fin 16) (before after : Cpu) (result : UInt8) : Prop where
  cleared : d.logicClearsFlag = true → after.reg flag = 0
  flag_kept : d.logicClearsFlag = false → after.reg flag ≠ before.reg flag → x = flag
  result : x ≠ flag ∨ d.logicClearsFlag = false → after.reg x = result

/-- what an operation on Vx and Vy makes of the values from before: VF holds the flag, and Vx the result if it is not
VF -/
def Arith.Law (d : Dialect) (x y : Fin 16) (before after : Cpu) (op : Arith) : Prop :=
  let a := (before.reg x).toNat
  let b := (before.reg y).toNat
  let source := if d.shiftReadsVy then b else a
  let result := (after.reg x).toNat
  let carry := (after.reg flag).toNat
  match op with
  | copy => after.reg x = before.reg y ∧ (x ≠ flag → after.reg flag = before.reg flag)
  | or => d.Bitwise x before after (before.reg x ||| before.reg y)
  | and => d.Bitwise x before after (before.reg x &&& before.reg y)
  | xor => d.Bitwise x before after (before.reg x ^^^ before.reg y)
  | add => carry = (if 255 < a + b then 1 else 0) ∧ (x ≠ flag → result + 256 * carry = a + b)
  | sub => carry = (if b ≤ a then 1 else 0) ∧ (x ≠ flag → (result : Int) = a - b + 256 * (1 - carry))
  | subn => carry = (if a ≤ b then 1 else 0) ∧ (x ≠ flag → (result : Int) = b - a + 256 * (1 - carry))
  | shr => carry = source % 2 ∧ (x ≠ flag → 2 * result + carry = source)
  | shl => carry = source / 128 ∧ (x ≠ flag → result + 256 * carry = 2 * source)

namespace Cpu

/-- the processor after an operation: the result in Vx, and after it the flag in VF -/
def computed (c : Cpu) (d : Dialect) (x y : Fin 16) (op : Arith) : Cpu :=
  (c.setReg x (op.apply d (c.reg x) (c.reg y)).1).flagged (op.apply d (c.reg x) (c.reg y)).2

variable {c : Cpu} {d : Dialect} {x y : Fin 16} {op : Arith} {result : UInt8}

theorem reg_computed_of_ne {r : Fin 16} (hx : r ≠ x) (hflag : r ≠ flag) : (c.computed d x y op).reg r = c.reg r := by
  rw [computed, reg_flagged_of_ne hflag, reg_setReg_of_ne hx]

/-- an operation with a flag: VF holds it, and Vx the result if it is not VF -/
theorem reg_computed_of_flag {P : Prop} [Decidable P]
    (h : op.apply d (c.reg x) (c.reg y) = (result, some (decide P))) :
    ((c.computed d x y op).reg flag).toNat = (if P then 1 else 0) ∧
      (x ≠ flag → (c.computed d x y op).reg x = result) := by
  rw [computed, h]
  constructor
  · rw [reg_flagged]
    by_cases hP : P <;> simp [hP]
  · intro hx
    rw [reg_flagged_of_ne hx, reg_setReg_self]

/-- a bitwise operation, with the flag that the dialect wants -/
theorem bitwise_computed
    (h : op.apply d (c.reg x) (c.reg y) = (result, if d.logicClearsFlag then some false else none)) :
    d.Bitwise x c (c.computed d x y op) result := by
  rw [computed, h]
  cases hclears : d.logicClearsFlag with
  | true =>
    refine ⟨fun _ => reg_flagged _ false, fun hno => absurd (hclears.symm.trans hno) (by decide), fun hx => ?_⟩
    have hx : x ≠ flag := hx.resolve_right (by rw [hclears]; decide)
    exact (reg_flagged_of_ne hx).trans reg_setReg_self
  | false =>
    refine ⟨fun hno => absurd (hclears.symm.trans hno) (by decide), fun _ hne => ?_, fun _ => reg_setReg_self⟩
    exact (eq_of_reg_setReg hne).symm

end Cpu

theorem Arith.law_apply (d : Dialect) (x y : Fin 16) (c : Cpu) (op : Arith) : op.Law d x y c (c.computed d x y op) := by
  let source := if d.shiftReadsVy then c.reg y else c.reg x
  have hsource : source.toNat = if d.shiftReadsVy then (c.reg y).toNat else (c.reg x).toNat :=
    apply_ite UInt8.toNat _ _ _
  cases op with
  | copy => exact ⟨reg_setReg_self, fun hx => reg_setReg_of_ne hx.symm⟩
  | or => exact bitwise_computed rfl
  | and => exact bitwise_computed rfl
  | xor => exact bitwise_computed rfl
  | add =>
    have happly : Arith.add.apply d (c.reg x) (c.reg y) =
        (c.reg x + c.reg y, some (decide (255 < (c.reg x).toNat + (c.reg y).toNat))) := rfl
    obtain ⟨hflag, hresult⟩ := reg_computed_of_flag happly
    refine ⟨hflag, fun hx => ?_⟩
    simp only [hflag, hresult hx]
    exact sum_exact _ _
  | sub =>
    have happly : Arith.sub.apply d (c.reg x) (c.reg y) =
        (c.reg x - c.reg y, some (decide ((c.reg y).toNat ≤ (c.reg x).toNat))) := rfl
    obtain ⟨hflag, hresult⟩ := reg_computed_of_flag happly
    refine ⟨hflag, fun hx => ?_⟩
    simp only [hflag, hresult hx]
    exact_mod_cast difference_exact _ _
  | subn =>
    have happly : Arith.subn.apply d (c.reg x) (c.reg y) =
        (c.reg y - c.reg x, some (decide ((c.reg x).toNat ≤ (c.reg y).toNat))) := rfl
    obtain ⟨hflag, hresult⟩ := reg_computed_of_flag happly
    refine ⟨hflag, fun hx => ?_⟩
    simp only [hflag, hresult hx]
    exact_mod_cast difference_exact _ _
  | shr =>
    have happly : Arith.shr.apply d (c.reg x) (c.reg y) = (source >>> 1, some (decide (source.toNat % 2 = 1))) := rfl
    obtain ⟨hflag, hresult⟩ := reg_computed_of_flag happly
    rw [low_bit] at hflag
    refine ⟨hflag.trans (by rw [hsource]), fun hx => ?_⟩
    rw [hflag, hresult hx, half_exact, hsource]
  | shl =>
    have happly : Arith.shl.apply d (c.reg x) (c.reg y) = (source <<< 1, some (decide (128 ≤ source.toNat))) := rfl
    obtain ⟨hflag, hresult⟩ := reg_computed_of_flag happly
    rw [high_bit] at hflag
    refine ⟨hflag.trans (by rw [hsource]), fun hx => ?_⟩
    rw [hflag, hresult hx, double_exact, hsource]

/-! ## Words -/

/-- the word of an instruction that changes registers only, carried out by itself or by a cycle: it leads to this
processor -/
structure State.Computes (p : Profile) (s : State) (w : UInt16) (c : Cpu) : Prop where
  registers : c = { s.cpu with v := c.v }
  execute : Effect.execute p (Instruction.decode w) s = .ok () (s.withCpu c)
  cycle : s.cpu.pc + 1 < s.memory.size → s.word = w →
    Effect.step p s = .ok (Instruction.decode w) (s.withCpu { c with pc := s.cpu.pc + 2 }).counted

/-- nothing stands against the instruction, and it changes the processor only: `f` says how, and that it is about
registers -/
theorem State.computes_of_outcome {p : Profile} {w : UInt16} {ins : Instruction} {f : Cpu → Cpu}
    (hpattern : ins.Pattern w) (hknown : ∀ v, ins ≠ .unknown v) (hclear : ∀ s, ins.obstacle? p s = none)
    (houtcome : ∀ s, ins.outcome p s = s.withCpu (f s.cpu)) (hregisters : ∀ c, f c = { c with v := (f c).v })
    (hpc : ∀ c pc, f { c with pc := pc } = { f c with pc := pc }) (s : State) : s.Computes p w (f s.cpu) := by
  have hdecode : Instruction.decode w = ins := Instruction.decode_of_pattern hpattern hknown
  refine ⟨hregisters s.cpu, ?_, fun hroom hword => ?_⟩
  · rw [hdecode, Effect.execute_eq, hclear, houtcome]
  · have hins : s.instruction = ins := by rw [State.instruction, hword, hdecode]
    have hobstacle : s.obstacle? p = none := by rw [State.obstacle?, if_pos hroom, hins, hclear]
    have hfetched : f s.fetched.cpu = { f s.cpu with pc := s.cpu.pc + 2 } := hpc s.cpu _
    have hnext : s.next p = (s.withCpu { f s.cpu with pc := s.cpu.pc + 2 }).counted := by
      rw [State.next, hins, houtcome, hfetched]
      rfl
    exact Effect.step_eq_ok.2 ⟨hobstacle, hdecode.trans hins.symm, hnext.symm⟩

/-- **Arithmetic is exact.** From every state, under every dialect and for every choice of registers, the same ones or
not: a word 8xyn of an operation leaves what the law of the operation says of the values from before, and a word 7xnn
leaves the sum of Vx and nn, modulo 256, in Vx and no flag; only Vx and VF change. -/
theorem alu_exact (p : Profile) (s : State) (w : UInt16) :
    (∀ op : Arith, Word.top w = 0x8 → w.toNat % 16 = op.digit →
      ∃ c, s.Computes p w c ∧ op.Law p.dialect (Word.x w) (Word.y w) s.cpu c ∧
        ∀ r, r ≠ Word.x w → r ≠ flag → c.reg r = s.cpu.reg r) ∧
    (Word.top w = 0x7 →
      ∃ c, s.Computes p w c ∧ (c.reg (Word.x w)).toNat = ((s.cpu.reg (Word.x w)).toNat + Word.low w) % 256 ∧
        ∀ r, r ≠ Word.x w → c.reg r = s.cpu.reg r) := by
  constructor
  · intro op htop hdigit
    have hpattern : (Instruction.arith op (Word.x w) (Word.y w)).Pattern w := ⟨htop, hdigit, rfl, rfl⟩
    have hcomputes : s.Computes p w (s.cpu.computed p.dialect (Word.x w) (Word.y w) op) :=
      State.computes_of_outcome (f := fun c => c.computed p.dialect (Word.x w) (Word.y w) op) hpattern (by simp)
        (fun _ => rfl) (fun _ => rfl) (fun _ => rfl) (fun _ _ => rfl) s
    exact ⟨_, hcomputes, Arith.law_apply _ _ _ _ _, fun r => reg_computed_of_ne⟩
  · intro htop
    have hpattern : (Instruction.add (Word.x w) (Word.nn w)).Pattern w := ⟨htop, rfl, rfl⟩
    have hcomputes : s.Computes p w (s.cpu.setReg (Word.x w) (s.cpu.reg (Word.x w) + Word.nn w)) :=
      State.computes_of_outcome (f := fun c => c.setReg (Word.x w) (c.reg (Word.x w) + Word.nn w)) hpattern (by simp)
        (fun _ => rfl) (fun _ => rfl) (fun _ => rfl) (fun _ _ => rfl) s
    refine ⟨_, hcomputes, ?_, fun r => reg_setReg_of_ne⟩
    rw [reg_setReg_self, UInt8.toNat_add, Instruction.toNat_nn]

/-- 200 in every register, and the word that adds V0 to itself -/
def State.doubling : State where
  cpu := { v := Vector.replicate 16 200 }
  memory := ⟨#[0x80, 0x04]⟩
  screen := .dark 8 8
  rng := .ofSeed 0

/-- with VF for Vx the flag is what stays of 8xy4, and the sum of 7xnn -/
theorem doubling_computes :
    (∃ c, State.doubling.Computes {} 0x8004 c ∧ c.reg 0 = 144 ∧ c.reg flag = 1) ∧
    (∃ c, State.doubling.Computes {} 0x8FF4 c ∧ c.reg flag = 1) ∧
    ∃ c, State.doubling.Computes {} 0x7FC8 c ∧ c.reg flag = 144 := by
  have htwice := (alu_exact {} .doubling 0x8004).1 .add rfl rfl
  have hflagged := (alu_exact {} .doubling 0x8FF4).1 .add rfl rfl
  have hadded := (alu_exact {} .doubling 0x7FC8).2 rfl
  obtain ⟨c, hcomputes, ⟨hcarry, hsum⟩, -⟩ := htwice
  obtain ⟨e, hecomputes, ⟨hecarry, -⟩, -⟩ := hflagged
  obtain ⟨g, hgcomputes, hgsum, -⟩ := hadded
  have hcarry : (c.reg flag).toNat = 1 := hcarry
  have hsum : (c.reg 0).toNat + 256 * (c.reg flag).toNat = 400 := hsum (by decide)
  refine ⟨⟨c, hcomputes, ?_, UInt8.toNat_inj.1 hcarry⟩, ⟨e, hecomputes, UInt8.toNat_inj.1 hecarry⟩,
    g, hgcomputes, UInt8.toNat_inj.1 hgsum⟩
  exact UInt8.toNat_inj.1 (show (c.reg 0).toNat = 144 by omega)

end Chip8
