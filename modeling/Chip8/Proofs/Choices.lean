/-
What a choice of the dialect is good for. Each of the five choices is read by a few patterns of words only, and by some
of them only if the registers ask for it; `Choice.Concerns` lists them. Under two dialects a cycle does the same if they
agree on the choices that concern it, and so do whole runs.

- `Screen.draw_clip_eq_wrap`: a sprite that fits on the screen is drawn the same whether sprites clip or wrap.
- `Effect.step_dialect`: one cycle under two dialects.
- `Machine.simulation_dialect`: machines under two dialects.
- `choice_concerns_its_words`: two dialects that differ in one choice only.
-/
import Chip8.Proofs.Cause
import Chip8.Proofs.Shape
import Chip8.Proofs.Simulation

namespace Chip8

open Act

/-! ## Sprites that fit -/

namespace Screen

variable {s : Screen}

/-- a pixel on the screen is where it is under both readings -/
theorem place_clip_eq_wrap {x y : Nat} (hx : x < s.width) (hy : y < s.height) :
    s.place true x y = s.place false x y := by
  have hclip : s.place true x y = some (x, y) := by
    unfold place
    rw [if_pos rfl, if_pos ⟨hx, hy⟩]
  have hwrap : s.place false x y = some (x % s.width, y % s.height) := rfl
  rw [hclip, hwrap, Nat.mod_eq_of_lt hx, Nat.mod_eq_of_lt hy]

theorem rowCells_clip_eq_wrap {x y : Nat} (hx : x + 8 ≤ s.width) (hy : y < s.height) (row : Int) :
    s.rowCells true x y row = s.rowCells false x y row := by
  unfold rowCells
  refine List.filterMap_congr fun c hc => ?_
  have hlt := List.mem_range.1 hc
  rw [place_clip_eq_wrap (by omega) hy]

theorem cells_clip_eq_wrap {x y : Nat} {rows : List Int} (hx : x + 8 ≤ s.width) (hy : y + rows.length ≤ s.height) :
    s.cells true x y rows = s.cells false x y rows := by
  induction rows generalizing y with
  | nil => rfl
  | cons row rows ih =>
    rw [List.length_cons] at hy
    rw [cells, cells, rowCells_clip_eq_wrap hx (by omega), ih (by omega)]

/-- a sprite that fits on the screen is drawn the same whether sprites clip or wrap -/
theorem draw_clip_eq_wrap {x y : Nat} {rows : List Int} (hx : x % s.width + 8 ≤ s.width)
    (hy : y % s.height + rows.length ≤ s.height) : s.draw x y rows true = s.draw x y rows false := by
  unfold draw
  rw [← Int.natCast_mod, ← Int.natCast_mod, Int.toNat_natCast, Int.toNat_natCast, cells_clip_eq_wrap hx hy]

end Screen

/-! ## Choices -/

inductive Choice where
  /-- whether the shifts read Vy -/
  | shift
  /-- whether Fx55 and Fx65 move I -/
  | transfer
  /-- whether Bnnn adds Vx -/
  | jump
  /-- whether the bitwise operations clear VF -/
  | logic
  /-- whether sprites clip -/
  | clip
  deriving DecidableEq, Repr

namespace Choice

open Word

def made (d : Dialect) : Choice → Bool
  | shift => d.shiftReadsVy
  | transfer => d.transferAdvancesI
  | jump => d.jumpAddsVx
  | logic => d.logicClearsFlag
  | clip => d.spritesClip

/-- the choice is of consequence to the word at the program counter -/
def Concerns (s : State) : Choice → Prop
  -- 8xy6 and 8xyE on two registers
  | shift => top s.word = 0x8 ∧ (s.word.toNat % 16 = 0x6 ∨ s.word.toNat % 16 = 0xE) ∧ x s.word ≠ y s.word
  -- Fx55 and Fx65
  | transfer => top s.word = 0xF ∧ (low s.word = 0x55 ∨ low s.word = 0x65)
  -- Bnnn to an address whose top digit is not zero
  | jump => top s.word = 0xB ∧ (x s.word).val ≠ 0
  -- 8xy1, 8xy2 and 8xy3
  | logic => top s.word = 0x8 ∧ s.word.toNat % 16 ∈ [0x1, 0x2, 0x3]
  -- Dxyn past an edge of the screen
  | clip => top s.word = 0xD ∧
    (s.screen.width < (s.cpu.reg (x s.word)).toNat % s.screen.width + 8 ∨
      s.screen.height < (s.cpu.reg (y s.word)).toNat % s.screen.height + (n s.word).val)

instance (s : State) : (q : Choice) → Decidable (q.Concerns s)
  | shift => inferInstanceAs (Decidable (_ ∧ _))
  | transfer => inferInstanceAs (Decidable (_ ∧ _))
  | jump => inferInstanceAs (Decidable (_ ∧ _))
  | logic => inferInstanceAs (Decidable (_ ∧ _))
  | clip => inferInstanceAs (Decidable (_ ∧ _))

end Choice

/-! ## One cycle under two dialects -/

section Cycles

open Word

variable {p q : Profile} {s : State}

/-- what an operation on two registers makes of their values -/
theorem Arith.apply_dialect {d e : Dialect} {op : Arith} (htop : top s.word = 0x8)
    (hdigit : s.word.toNat % 16 = op.digit) (hagree : ∀ c : Choice, c.Concerns s → c.made d = c.made e) :
    op.apply d (s.cpu.reg (x s.word)) (s.cpu.reg (y s.word)) =
      op.apply e (s.cpu.reg (x s.word)) (s.cpu.reg (y s.word)) := by
  have hlogic (hop : op.digit ∈ [0x1, 0x2, 0x3]) : d.logicClearsFlag = e.logicClearsFlag :=
    hagree .logic ⟨htop, hdigit ▸ hop⟩
  have hshift (hop : op.digit = 0x6 ∨ op.digit = 0xE) :
      (if d.shiftReadsVy then s.cpu.reg (y s.word) else s.cpu.reg (x s.word)) =
        if e.shiftReadsVy then s.cpu.reg (y s.word) else s.cpu.reg (x s.word) := by
    by_cases hxy : x s.word = y s.word
    · rw [hxy, ite_self, ite_self]
    · have hsame : d.shiftReadsVy = e.shiftReadsVy := hagree .shift ⟨htop, hdigit ▸ hop, hxy⟩
      rw [hsame]
  cases op with
  | or => simp only [apply, hlogic (by decide)]
  | and => simp only [apply, hlogic (by decide)]
  | xor => simp only [apply, hlogic (by decide)]
  | shr => simp only [apply, hshift (by decide)]
  | shl => simp only [apply, hshift (by decide)]
  | _ => rfl

/-- where the jump with offset adds a register -/
theorem Dialect.offsetReg_dialect {d e : Dialect} (htop : top s.word = 0xB)
    (hagree : ∀ c : Choice, c.Concerns s → c.made d = c.made e) :
    d.offsetReg (nnn s.word) = e.offsetReg (nnn s.word) := by
  rw [State.offsetReg_nnn, State.offsetReg_nnn]
  by_cases hx : (x s.word).val = 0
  · have hzero : x s.word = 0 := Fin.ext hx
    rw [hzero, ite_self, ite_self]
  · have hsame : d.jumpAddsVx = e.jumpAddsVx := hagree .jump ⟨htop, hx⟩
    rw [hsame]

/-- the sprite at I -/
theorem State.drawn_dialect {d e : Dialect} (htop : top s.word = 0xD)
    (hagree : ∀ c : Choice, c.Concerns s → c.made d = c.made e) :
    s.fetched.drawn d.spritesClip (x s.word) (y s.word) (n s.word) =
      s.fetched.drawn e.spritesClip (x s.word) (y s.word) (n s.word) := by
  by_cases hout : Choice.clip.Concerns s
  · have hsame : d.spritesClip = e.spritesClip := hagree .clip hout
    rw [hsame]
  · have hin : (s.cpu.reg (x s.word)).toNat % s.screen.width + 8 ≤ s.screen.width ∧
        (s.cpu.reg (y s.word)).toNat % s.screen.height + (n s.word).val ≤ s.screen.height := by
      by_contra hpast
      exact hout ⟨htop, by omega⟩
    have hrows := s.memory.length_read_le s.cpu.i.toNat (n s.word).val
    have hfits (rows : List Int) (hlen : rows.length ≤ (n s.word).val) :
        s.screen.draw (s.cpu.reg (x s.word)).toNat (s.cpu.reg (y s.word)).toNat rows true =
          s.screen.draw (s.cpu.reg (x s.word)).toNat (s.cpu.reg (y s.word)).toNat rows false :=
      Screen.draw_clip_eq_wrap hin.1 (by omega)
    have hdrawn (clip : Bool) : s.fetched.drawn clip (x s.word) (y s.word) (n s.word) =
        s.fetched.drawn true (x s.word) (y s.word) (n s.word) := by
      cases clip with
      | true => rfl
      | false =>
        have hdraw := hfits ((s.memory.read s.cpu.i.toNat (n s.word).val).map fun b => (b.toNat : Int)) (by
          rw [List.length_map]
          exact hrows)
        unfold State.drawn
        simp only [State.fetched, State.withCpu, Cpu.reg] at hdraw ⊢
        rw [hdraw]
    rw [hdrawn, hdrawn e.spritesClip]

/-- the instruction at the program counter under two dialects that agree on the choices that concern it -/
theorem State.outcome_dialect (hfont : p.fontAddress = q.fontAddress)
    (hagree : ∀ c : Choice, c.Concerns s → c.made p.dialect = c.made q.dialect) :
    s.instruction.outcome p s.fetched = s.instruction.outcome q s.fetched := by
  have hw : s.instruction.Pattern s.word := Instruction.decode_pattern s.word
  have hmoved (c : Cpu) (count : Nat) (htransfer : Choice.transfer.Concerns s) :
      c.advanced p.dialect count = c.advanced q.dialect count := by
    have hsame : p.dialect.transferAdvancesI = q.dialect.transferAdvancesI := hagree .transfer htransfer
    unfold Cpu.advanced
    rw [hsame]
  cases hins : s.instruction with
  | arith op r r' =>
    rw [hins] at hw
    obtain ⟨htop, hdigit, rfl, rfl⟩ := hw
    have happly := Arith.apply_dialect htop hdigit hagree
    have hreg (r : Fin 16) : s.fetched.cpu.reg r = s.cpu.reg r := rfl
    simp only [Instruction.outcome, hreg, happly]
  | jumpOffset addr =>
    rw [hins] at hw
    obtain ⟨htop, rfl⟩ := hw
    simp only [Instruction.outcome, Dialect.offsetReg_dialect htop hagree]
  | draw r r' m =>
    rw [hins] at hw
    obtain ⟨htop, rfl, rfl, rfl⟩ := hw
    exact State.drawn_dialect htop hagree
  | glyph r => simp only [Instruction.outcome, hfont]
  | store r =>
    rw [hins] at hw
    simp only [Instruction.outcome, hmoved _ _ ⟨hw.1, .inl hw.2.1⟩]
  | restore r =>
    rw [hins] at hw
    simp only [Instruction.outcome, hmoved _ _ ⟨hw.1, .inr hw.2.1⟩]
  | _ => rfl

/-- what stands against the instruction at the program counter under two such dialects -/
theorem State.obstacle?_dialect (hagree : ∀ c : Choice, c.Concerns s → c.made p.dialect = c.made q.dialect) :
    s.instruction.obstacle? p s.fetched = s.instruction.obstacle? q s.fetched := by
  have hw : s.instruction.Pattern s.word := Instruction.decode_pattern s.word
  cases hins : s.instruction with
  | jumpOffset addr =>
    rw [hins] at hw
    obtain ⟨htop, rfl⟩ := hw
    simp only [Instruction.obstacle?, Dialect.offsetReg_dialect htop hagree]
  | _ => rfl

/-- a cycle under two dialects that agree on the choices that concern its instruction, if it comes to one -/
theorem Effect.step_dialect (hfont : p.fontAddress = q.fontAddress)
    (hagree : s.cpu.pc + 1 < s.memory.size → ∀ c : Choice, c.Concerns s → c.made p.dialect = c.made q.dialect) :
    step p s = step q s := by
  rw [step_eq, step_eq]
  unfold State.obstacle? State.next
  by_cases hfetch : s.cpu.pc + 1 < s.memory.size
  · rw [if_pos hfetch, if_pos hfetch, State.obstacle?_dialect (hagree hfetch),
      State.outcome_dialect hfont (hagree hfetch)]
  · rw [if_neg hfetch, if_neg hfetch]

end Cycles

/-! ## Runs under two dialects -/

namespace Machine

/-- machines under two dialects go on the same as long as the dialects agree on the choices that concern what is carried
out -/
theorem simulation_dialect {c d : Config} (hcpu : c.cpuHz = d.cpuHz) (htimer : c.timerHz = d.timerHz)
    (hfont : c.fontStart = d.fontStart) :
    Simulation c d Eq fun s => s.cpu.pc + 1 < s.memory.size →
      ∀ q : Choice, q.Concerns s → q.made c.dialect = q.made d.dialect where
  cpuHz := hcpu
  timerHz := htimer
  cpu h := congrArg State.cpu h
  withCpu cpu h := congrArg (State.withCpu · cpu) h
  step := by
    rintro s t rfl hagree
    have hstep : Effect.step c.profile s = Effect.step d.profile s := Effect.step_dialect hfont hagree
    rw [← hstep]
    exact Agree.refl _

end Machine

/-- **A choice of the dialect concerns its own words only.** Two machines are in the same state, with the same rates,
credit and place of the font, and their dialects differ in one choice at most. Whatever is done with both of them,
instructions, timer beats, keys and time that passes, has the same answers and errors on both and leaves them in the
same state after each action, as long as no instruction is carried out that the choice concerns. -/
theorem choice_concerns_its_words {κ : Type} [Credit κ] (q : Choice) {m n : Machine κ} (hstate : m.state = n.state)
    (hclock : m.clock = n.clock) (hcpu : m.config.cpuHz = n.config.cpuHz) (htimer : m.config.timerHz = n.config.timerHz)
    (hfont : m.config.fontStart = n.config.fontStart)
    (hothers : ∀ q', q' ≠ q → Choice.made m.config.dialect q' = Choice.made n.config.dialect q')
    (as : List (Machine.Action κ))
    (hnone : ∀ s ∈ m.attempted as, s.cpu.pc + 1 < s.memory.size → ¬ q.Concerns s) :
    List.Forall₂ (Agree (Machine.Paired m.config n.config Eq)) (m.history as) (n.history as) := by
  have hpaired : Machine.Paired m.config n.config Eq m n := ⟨rfl, rfl, hstate, hclock⟩
  have hagree : ∀ s ∈ m.attempted as, s.cpu.pc + 1 < s.memory.size →
      ∀ q' : Choice, q'.Concerns s → q'.made m.config.dialect = q'.made n.config.dialect := by
    intro s hs hfetch q' hconcerns
    refine hothers q' ?_
    rintro rfl
    exact hnone s hs hfetch hconcerns
  exact (Machine.simulation_dialect hcpu htimer hfont).agree_history hpaired as hagree

/-- a machine that draws a sprite as wide as its screen, and then stays where it is -/
def fitting : Machine Rat where
  config := { memorySize := 4 }
  state := { memory := ⟨#[0xD0, 0x01, 0x10, 0x02]⟩, screen := .dark 8 8, rng := .ofSeed 0 }
  clock := Clock.zero

/-- the same machine under the dialect in which sprites come back at the other side -/
def fittingWrapped : Machine Rat := { fitting with config := { memorySize := 4, dialect := { spritesClip := false } } }

theorem fitting_drawn_alike :
    fitting.config.dialect ≠ fittingWrapped.config.dialect ∧
      (∀ s ∈ fitting.attempted [.step, .tick, .step], s.cpu.pc + 1 < s.memory.size → ¬ Choice.clip.Concerns s) ∧
      List.Forall₂ (Agree (Machine.Paired fitting.config fittingWrapped.config Eq))
        (fitting.history [.step, .tick, .step]) (fittingWrapped.history [.step, .tick, .step]) := by
  have hothers : ∀ q, q ≠ Choice.clip → q.made fitting.config.dialect = q.made fittingWrapped.config.dialect := by
    intro q hq
    cases q with
    | clip => exact absurd rfl hq
    | _ => rfl
  have hnone : ∀ s ∈ fitting.attempted [.step, .tick, .step], s.cpu.pc + 1 < s.memory.size →
      ¬ Choice.clip.Concerns s := by decide +kernel
  refine ⟨by decide, hnone, ?_⟩
  exact choice_concerns_its_words .clip (m := fitting) (n := fittingWrapped) rfl rfl rfl rfl rfl hothers _ hnone

end Chip8
