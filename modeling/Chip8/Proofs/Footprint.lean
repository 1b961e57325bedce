/-
What one cycle leaves alone, told from the digits of the word at the program counter. Every part of the state has the
few patterns of words that change it, and `State.Frame` lists them part by part: a cycle of any other word leaves the
part as it was.

- `Word.Stores`, `Word.Sets`, `Word.Flags`: the bytes and registers that the words of a pattern may change.
- `State.Follows`: where a cycle may leave the program counter.
- `step_frame`: a cycle that is carried out changes nothing outside its frame.
-/
import Chip8.Proofs.Cause
import Chip8.Proofs.PowerOn

namespace Chip8

open Effect

/-! ## Words and what they change -/

namespace Word

/-- how many bytes from I on the words of these patterns write: Fx33 and Fx55 -/
inductive Stores (w : UInt16) : Nat → Prop where
  | decimal : top w = 0xF → low w = 0x33 → Stores w 3
  | store : top w = 0xF → low w = 0x55 → Stores w ((x w).val + 1)

/-- the word leaves a flag in VF: 8xy4 to 8xy7, 8xyE and Dxyn, and 8xy1 to 8xy3 if the dialect clears it there -/
inductive Flags (d : Dialect) (w : UInt16) : Prop where
  | arith : top w = 0x8 → w.toNat % 16 ∈ [0x4, 0x5, 0x6, 0x7, 0xE] → Flags d w
  | bitwise : d.logicClearsFlag → top w = 0x8 → w.toNat % 16 ∈ [0x1, 0x2, 0x3] → Flags d w
  | draw : top w = 0xD → Flags d w

/-- the word leaves a result in Vx: 6xnn, 7xnn, 8xyn, Cxnn, Fx07 and Fx0A -/
def Yields (w : UInt16) : Prop := top w ∈ [0x6, 0x7, 0x8, 0xC] ∨ top w = 0xF ∧ (low w = 0x07 ∨ low w = 0x0A)

/-- the registers that the word may change: Vx by its result, V0 to Vx by Fx65, and VF by its flag -/
inductive Sets (d : Dialect) (w : UInt16) : Fin 16 → Prop where
  | result : Yields w → Sets d w (x w)
  | restore {r : Fin 16} : top w = 0xF → low w = 0x65 → r ≤ x w → Sets d w r
  | flag : Flags d w → Sets d w Cpu.flag

variable {d : Dialect} {w : UInt16} {r : Fin 16}

/-- registers other than Vx and VF are set by Fx65 only -/
theorem Sets.restore_of_other (h : Sets d w r) (hx : r ≠ x w) (hflag : r ≠ Cpu.flag) :
    top w = 0xF ∧ low w = 0x65 ∧ r ≤ x w := by
  cases h with
  | result _ => exact absurd rfl hx
  | restore htop hlow hr => exact ⟨htop, hlow, hr⟩
  | flag _ => exact absurd rfl hflag

/-- if it is not Vx, VF is set as a flag only -/
theorem Sets.flags_of_flag (h : Sets d w Cpu.flag) (hx : x w ≠ Cpu.flag) : Flags d w := by
  generalize hr : Cpu.flag = r at h hx
  cases h with
  | result _ => exact absurd rfl hx
  | restore _ _ hle =>
    -- VF is the last register, so only Fx65 with x = F reaches it
    subst hr
    exact absurd (le_antisymm (Fin.le_last _) hle) hx
  | flag h => exact h

/-- the word may skip the next one: 3xnn, 4xnn, 5xy0, 9xy0, Ex9E and ExA1 -/
def Skips (w : UInt16) : Prop :=
  top w = 0x3 ∨ top w = 0x4 ∨ (top w = 0x5 ∨ top w = 0x9) ∧ w.toNat % 16 = 0 ∨ AsksKey w

/-- the word always leads somewhere else: 1nnn, 2nnn, Bnnn and 00EE -/
def Leaves (w : UInt16) : Prop := top w = 0x1 ∨ top w = 0x2 ∨ top w = 0xB ∨ w = 0x00EE

end Word

open Word

namespace State

/-- where the cycle of the word at the program counter may leave the program counter -/
inductive Follows (p : Profile) (s : State) : Nat → Prop where
  /-- at the next word; not after a word that leads elsewhere, and not while a key is waited for -/
  | on : ¬ Leaves s.word → (top s.word = 0xF → low s.word = 0x0A → ∃ k, s.cpu.keys.get k = true) →
      Follows p s (s.cpu.pc + 2)
  /-- at the word after the next one -/
  | skip : Skips s.word → Follows p s (s.cpu.pc + 4)
  /-- at the address in 1nnn and 2nnn -/
  | target : top s.word = 0x1 ∨ top s.word = 0x2 → Follows p s (nnn s.word).val
  /-- at the address that Bnnn works out -/
  | offset : top s.word = 0xB → Follows p s (s.offsetTarget p)
  /-- where the newest call was made -/
  | ret : s.word = 0x00EE → Follows p s (s.cpu.stack.slots.get s.cpu.stack.top)
  /-- at the same word, Fx0A without a key -/
  | wait : top s.word = 0xF → low s.word = 0x0A → (∀ k, s.cpu.keys.get k = false) → Follows p s s.cpu.pc

/-- what is left as it was between two states, if one cycle leads from the one to the other -/
structure Frame (p : Profile) (s t : State) : Prop where
  cycles : t.cycles = s.cycles + 1
  keys : t.cpu.keys = s.cpu.keys
  size : t.memory.size = s.memory.size
  memory : ∀ a : Nat, t.memory.byte a ≠ s.memory.byte a → ∃ k, Stores s.word k ∧ s.cpu.i ≤ a ∧ a < s.cpu.i + k
  screen : t.screen ≠ s.screen → s.word = 0x00E0 ∨ top s.word = 0xD
  delay : t.cpu.delay ≠ s.cpu.delay → top s.word = 0xF ∧ low s.word = 0x15
  sound : t.cpu.sound ≠ s.cpu.sound → top s.word = 0xF ∧ low s.word = 0x18
  stack : t.cpu.stack ≠ s.cpu.stack → top s.word = 0x2 ∨ s.word = 0x00EE
  i : t.cpu.i ≠ s.cpu.i → top s.word = 0xA ∨ top s.word = 0xF ∧ (low s.word = 0x1E ∨ low s.word = 0x29 ∨
    p.dialect.transferAdvancesI ∧ (low s.word = 0x55 ∨ low s.word = 0x65))
  rng : t.rng ≠ s.rng → top s.word = 0xC
  result : t.cpu.reg (x s.word) ≠ s.cpu.reg (x s.word) → Sets p.dialect s.word (x s.word)
  others : ∀ r, r ≠ x s.word → r ≠ Cpu.flag → t.cpu.reg r ≠ s.cpu.reg r →
    top s.word = 0xF ∧ low s.word = 0x65 ∧ r ≤ x s.word
  flag : x s.word ≠ Cpu.flag → t.cpu.reg Cpu.flag ≠ s.cpu.reg Cpu.flag → Flags p.dialect s.word
  pc : s.Follows p t.cpu.pc

end State

/-! ## Parts of the state, one at a time -/

namespace Cpu

variable {c : Cpu} {r q : Fin 16}

theorem reg_setReg_self {b : UInt8} : (c.setReg q b).reg q = b := Vector.getElem_set_self _

theorem reg_setReg_of_ne {b : UInt8} (h : r ≠ q) : (c.setReg q b).reg r = c.reg r :=
  Vector.getElem_set_ne q.isLt r.isLt fun heq => h (Fin.ext heq.symm)

theorem eq_of_reg_setReg {b : UInt8} (h : (c.setReg q b).reg r ≠ c.reg r) : r = q :=
  by_contra fun hne => h (reg_setReg_of_ne hne)

theorem firstKey_eq_find? (c : Cpu) : c.firstKey = Fin.find? fun k => c.keys.get k := Fin.find?_eq_find?_finRange.symm

theorem firstKey_eq_none : c.firstKey = none ↔ ∀ k, c.keys.get k = false := by
  rw [firstKey_eq_find?]
  exact Fin.find?_eq_none_iff

/-- the key that Fx0A takes is the lowest one pressed -/
theorem firstKey_eq_some {k : Fin 16} : c.firstKey = some k ↔ c.keys.get k = true ∧ ∀ j < k, c.keys.get j = false := by
  rw [firstKey_eq_find?]
  exact Fin.find?_eq_some_iff

theorem eq_of_reg_keyTaken (h : (c.keyTaken q).reg r ≠ c.reg r) : r = q := by
  unfold keyTaken reg at h
  cases hkey : c.firstKey with
  | none =>
    rw [hkey] at h
    exact absurd rfl h
  | some k =>
    rw [hkey] at h
    exact eq_of_reg_setReg h

/-- only VF is a flag, and it is left alone if there is no flag to set -/
theorem of_reg_flagged {on : Option Bool} (h : (c.flagged on).reg r ≠ c.reg r) : r = flag ∧ on.isSome := by
  unfold flagged reg at h
  cases on with
  | none => exact absurd rfl h
  | some on => exact ⟨eq_of_reg_setReg h, rfl⟩

theorem reg_flagged_of_ne {on : Option Bool} (h : r ≠ flag) : (c.flagged on).reg r = c.reg r :=
  by_contra fun hne => h (of_reg_flagged hne).1

theorem reg_setFirstRegs (bs : List UInt8) : (c.setFirstRegs bs).reg r = bs[r.val]?.getD (c.reg r) := by
  unfold setFirstRegs reg
  simp

/-- so many bytes set so many registers -/
theorem lt_of_reg_setFirstRegs {bs : List UInt8} (h : (c.setFirstRegs bs).reg r ≠ c.reg r) : r.val < bs.length := by
  by_contra hle
  rw [reg_setFirstRegs, List.getElem?_eq_none (not_lt.1 hle)] at h
  exact h rfl

end Cpu

namespace Memory

/-- what changes when bytes are written from I on lies among them -/
theorem mem_window_of_byte_write {m : Memory} {i : Int} {bs : List UInt8} (h : m.window? i bs.length = none) {a : Nat}
    (hne : (m.write i.toNat bs).byte a ≠ m.byte a) : i ≤ a ∧ a < i + bs.length := by
  have hfits := fits_of_window? h
  by_contra hout
  exact hne (m.byte_write_of_not_mem (by omega))

end Memory

namespace Instruction

variable {p : Profile} {s : State} {w : UInt16} {ins : Instruction}

theorem screen_footprint (hw : ins.Pattern w) (h : (ins.outcome p s).screen ≠ s.screen) : w = 0x00E0 ∨ top w = 0xD := by
  rw [outcome_screen] at h
  cases ins with
  | clear => exact .inl hw
  | draw r q m => exact .inr hw.1
  | _ => exact absurd rfl h

theorem delay_footprint (hw : ins.Pattern w) (h : (ins.outcome p s).cpu.delay ≠ s.cpu.delay) :
    top w = 0xF ∧ low w = 0x15 := by
  rw [outcome_delay] at h
  cases ins with
  | setDelay r => exact ⟨hw.1, hw.2.1⟩
  | _ => exact absurd rfl h

theorem sound_footprint (hw : ins.Pattern w) (h : (ins.outcome p s).cpu.sound ≠ s.cpu.sound) :
    top w = 0xF ∧ low w = 0x18 := by
  rw [outcome_sound] at h
  cases ins with
  | setSound r => exact ⟨hw.1, hw.2.1⟩
  | _ => exact absurd rfl h

theorem stack_footprint (hw : ins.Pattern w) (h : (ins.outcome p s).cpu.stack ≠ s.cpu.stack) :
    top w = 0x2 ∨ w = 0x00EE := by
  rw [outcome_stack] at h
  cases ins with
  | call addr => exact .inl hw.1
  | ret => exact .inr hw
  | _ => exact absurd rfl h

theorem rng_footprint (hw : ins.Pattern w) (h : (ins.outcome p s).rng ≠ s.rng) : top w = 0xC := by
  rw [outcome_rng] at h
  cases ins with
  | random r mask => exact hw.1
  | _ => exact absurd rfl h

theorem i_footprint (hw : ins.Pattern w) (h : (ins.outcome p s).cpu.i ≠ s.cpu.i) :
    top w = 0xA ∨ top w = 0xF ∧ (low w = 0x1E ∨ low w = 0x29 ∨
      p.dialect.transferAdvancesI ∧ (low w = 0x55 ∨ low w = 0x65)) := by
  rw [outcome_i] at h
  have hadvances (i : Int) (h : (if p.dialect.transferAdvancesI then i else s.cpu.i) ≠ s.cpu.i) :
      p.dialect.transferAdvancesI := by
    by_contra hstays
    exact h (if_neg hstays)
  cases ins with
  | loadIndex addr => exact .inl hw.1
  | addIndex r => exact .inr ⟨hw.1, .inl hw.2.1⟩
  | glyph r => exact .inr ⟨hw.1, .inr (.inl hw.2.1)⟩
  | store r => exact .inr ⟨hw.1, .inr (.inr ⟨hadvances _ h, .inl hw.2.1⟩)⟩
  | restore r => exact .inr ⟨hw.1, .inr (.inr ⟨hadvances _ h, .inr hw.2.1⟩)⟩
  | _ => exact absurd rfl h

/-- bytes change only where the instruction writes, and it writes inside memory -/
theorem memory_footprint (hw : ins.Pattern w) (hclear : ins.obstacle? p s = none) {a : Nat}
    (h : (ins.outcome p s).memory.byte a ≠ s.memory.byte a) : ∃ k, Stores w k ∧ s.cpu.i ≤ a ∧ a < s.cpu.i + k := by
  rw [outcome_memory] at h
  cases ins with
  | decimal r =>
    have hwindow : s.memory.window? s.cpu.i (decimalDigits (s.cpu.reg r)).length = none := hclear
    exact ⟨3, .decimal hw.1 hw.2.1, Memory.mem_window_of_byte_write hwindow h⟩
  | store r =>
    obtain ⟨htop, hlow, rfl⟩ := hw
    have hwindow : s.memory.window? s.cpu.i (s.cpu.firstRegs (x w)).length = none := by
      rw [Cpu.length_firstRegs]
      exact hclear
    have hmem := Memory.mem_window_of_byte_write hwindow h
    rw [Cpu.length_firstRegs] at hmem
    exact ⟨(x w).val + 1, .store htop hlow, hmem⟩
  | _ => exact absurd rfl h

/-- an operation on two registers has a flag only if its word leaves one -/
theorem flags_of_arith {d : Dialect} {op : Arith} {a b : UInt8} (htop : top w = 0x8) (hdigit : w.toNat % 16 = op.digit)
    (h : (op.apply d a b).2.isSome) : Flags d w := by
  have hbitwise (hop : op.digit ∈ [0x1, 0x2, 0x3]) (hflag : (if d.logicClearsFlag then some false else none).isSome) :
      Flags d w := by
    split_ifs at hflag with hclears
    · exact .bitwise hclears htop (hdigit ▸ hop)
    · cases hflag
  cases op with
  | copy => cases h
  | or => exact hbitwise (by decide) h
  | and => exact hbitwise (by decide) h
  | xor => exact hbitwise (by decide) h
  | add => exact .arith htop (hdigit ▸ by decide)
  | sub => exact .arith htop (hdigit ▸ by decide)
  | shr => exact .arith htop (hdigit ▸ by decide)
  | subn => exact .arith htop (hdigit ▸ by decide)
  | shl => exact .arith htop (hdigit ▸ by decide)

/-- registers change only if the word may set them -/
theorem reg_footprint (hw : ins.Pattern w) {r : Fin 16} (h : (ins.outcome p s).cpu.reg r ≠ s.cpu.reg r) :
    Sets p.dialect w r := by
  cases ins with
  | load q byte =>
    obtain ⟨htop, rfl, -⟩ := hw
    obtain rfl := Cpu.eq_of_reg_setReg h
    exact .result (.inl (by simp [htop]))
  | add q byte =>
    obtain ⟨htop, rfl, -⟩ := hw
    obtain rfl := Cpu.eq_of_reg_setReg h
    exact .result (.inl (by simp [htop]))
  | random q mask =>
    obtain ⟨htop, rfl, -⟩ := hw
    obtain rfl := Cpu.eq_of_reg_setReg h
    exact .result (.inl (by simp [htop]))
  | readDelay q =>
    obtain ⟨htop, hlow, rfl⟩ := hw
    obtain rfl := Cpu.eq_of_reg_setReg h
    exact .result (.inr ⟨htop, .inl hlow⟩)
  | waitKey q =>
    obtain ⟨htop, hlow, rfl⟩ := hw
    obtain rfl := Cpu.eq_of_reg_keyTaken h
    exact .result (.inr ⟨htop, .inr hlow⟩)
  | restore q =>
    obtain ⟨htop, hlow, rfl⟩ := hw
    have hlt := Cpu.lt_of_reg_setFirstRegs h
    have hle := s.memory.length_read_le s.cpu.i.toNat ((x w).val + 1)
    exact .restore htop hlow (by omega)
  | draw q q' m =>
    obtain ⟨rfl, -⟩ := Cpu.of_reg_flagged h
    exact .flag (.draw hw.1)
  | arith op q q' =>
    obtain ⟨htop, hdigit, rfl, rfl⟩ := hw
    by_cases hr : r = x w
    · subst hr
      exact .result (.inl (by simp [htop]))
    · let result := op.apply p.dialect (s.cpu.reg (x w)) (s.cpu.reg (y w))
      have hkept : (s.cpu.setReg (x w) result.1).reg r = s.cpu.reg r := Cpu.reg_setReg_of_ne hr
      have hflagged : ((s.cpu.setReg (x w) result.1).flagged result.2).reg r ≠ (s.cpu.setReg (x w) result.1).reg r := by
        rw [hkept]
        exact h
      obtain ⟨rfl, hsome⟩ := Cpu.of_reg_flagged hflagged
      exact .flag (flags_of_arith htop hdigit hsome)
  | _ => exact absurd rfl h

end Instruction

/-! ## The program counter -/

namespace State

variable {p : Profile} {s : State}

/-- a word that always leads somewhere else is a jump, a call or a return -/
theorem instruction_of_leaves (h : Leaves s.word) :
    (∃ addr, s.instruction = .jump addr) ∨ (∃ addr, s.instruction = .call addr) ∨
      (∃ addr, s.instruction = .jumpOffset addr) ∨ s.instruction = .ret := by
  rcases h with htop | htop | htop | hword
  · exact .inl ⟨_, instruction_of_pattern (.jump _) ⟨htop, rfl⟩ (by simp)⟩
  · exact .inr (.inl ⟨_, instruction_of_pattern (.call _) ⟨htop, rfl⟩ (by simp)⟩)
  · exact .inr (.inr (.inl ⟨_, instruction_of_pattern (.jumpOffset _) ⟨htop, rfl⟩ (by simp)⟩))
  · exact .inr (.inr (.inr (instruction_of_pattern .ret hword (by simp))))

/-- every other instruction but the one that waits goes on -/
theorem Follows.of_instruction {ins : Instruction} (hins : s.instruction = ins)
    (hleaves : ∀ addr, ins ≠ .jump addr ∧ ins ≠ .call addr ∧ ins ≠ .jumpOffset addr ∧ ins ≠ .ret)
    (hwait : ∀ r, ins ≠ .waitKey r) : s.Follows p (s.cpu.pc + 2) := by
  refine .on (fun h => ?_) (fun htop hlow => ?_)
  · rcases instruction_of_leaves h with ⟨addr, h⟩ | ⟨addr, h⟩ | ⟨addr, h⟩ | h
    · exact (hleaves addr).1 (hins.symm.trans h)
    · exact (hleaves addr).2.1 (hins.symm.trans h)
    · exact (hleaves addr).2.2.1 (hins.symm.trans h)
    · exact (hleaves 0).2.2.2 (hins.symm.trans h)
  · have h := instruction_of_pattern (.waitKey _) ⟨htop, hlow, rfl⟩ (by simp)
    exact absurd (hins.symm.trans h) (hwait _)

/-- a word that may skip the next one does so or goes on -/
theorem Follows.of_skip (hskips : Skips s.word) (hon : s.Follows p (s.cpu.pc + 2)) (condition : Bool) :
    s.Follows p (if condition then s.fetched.cpu.pc + 2 else s.fetched.cpu.pc) := by
  split_ifs
  · exact .skip hskips
  · exact hon

/-- the program counter after a cycle that is carried out -/
theorem follows_next (p : Profile) (s : State) : s.Follows p (s.next p).cpu.pc := by
  have hw : s.instruction.Pattern s.word := Instruction.decode_pattern s.word
  have hpc : (s.next p).cpu.pc = (s.instruction.outcome p s.fetched).cpu.pc := rfl
  rw [hpc, Instruction.outcome_pc]
  cases hins : s.instruction with
  | ret =>
    rw [hins] at hw
    exact .ret hw
  | jump addr =>
    rw [hins] at hw
    obtain ⟨htop, rfl⟩ := hw
    exact .target (.inl htop)
  | call addr =>
    rw [hins] at hw
    obtain ⟨htop, rfl⟩ := hw
    exact .target (.inr htop)
  | jumpOffset addr =>
    rw [hins] at hw
    obtain ⟨htop, rfl⟩ := hw
    simp only [offsetReg_nnn]
    exact .offset htop
  | skipEq r byte =>
    rw [hins] at hw
    exact .of_skip (.inl hw.1) (.of_instruction hins (by simp) (by simp)) _
  | skipNe r byte =>
    rw [hins] at hw
    exact .of_skip (.inr (.inl hw.1)) (.of_instruction hins (by simp) (by simp)) _
  | skipEqReg r q =>
    rw [hins] at hw
    exact .of_skip (.inr (.inr (.inl ⟨.inl hw.1, hw.2.1⟩))) (.of_instruction hins (by simp) (by simp)) _
  | skipNeReg r q =>
    rw [hins] at hw
    exact .of_skip (.inr (.inr (.inl ⟨.inr hw.1, hw.2.1⟩))) (.of_instruction hins (by simp) (by simp)) _
  | skipKey r =>
    rw [hins] at hw
    exact .of_skip (.inr (.inr (.inr ⟨hw.1, .inl hw.2.1⟩))) (.of_instruction hins (by simp) (by simp)) _
  | skipNoKey r =>
    rw [hins] at hw
    exact .of_skip (.inr (.inr (.inr ⟨hw.1, .inr hw.2.1⟩))) (.of_instruction hins (by simp) (by simp)) _
  | waitKey r =>
    rw [hins] at hw
    obtain ⟨htop, hlow, -⟩ := hw
    split_ifs with hkey
    · exact .wait htop hlow (Cpu.firstKey_eq_none.1 hkey)
    · obtain ⟨k, hk⟩ := Option.ne_none_iff_exists'.1 hkey
      refine .on (fun h => ?_) fun _ _ => ⟨k, (Cpu.firstKey_eq_some.1 hk).1⟩
      rcases instruction_of_leaves h with ⟨addr, h⟩ | ⟨addr, h⟩ | ⟨addr, h⟩ | h <;> rw [hins] at h <;> cases h
  | _ => exact .of_instruction hins (by simp) (by simp)

end State

/-! ## A whole cycle -/

/-- **The frame of a cycle.** From every state and under every profile: a cycle that is carried out is counted, leaves
the keys as they are and memory as large as it is, and changes bytes, screen, timers, stack, I, random generator and
registers at most where the word at the program counter names them; and the program counter goes on by a word, skips
one, goes to the target of a jump, a call or a return, or stays where a key is waited for. -/
theorem step_frame {p : Profile} {s t : State} {ins : Instruction} (h : step p s = .ok ins t) : s.Frame p t := by
  obtain ⟨hclear, -, rfl⟩ := step_eq_ok.1 h
  have hw : s.instruction.Pattern s.word := Instruction.decode_pattern s.word
  have hins : s.instruction.obstacle? p s.fetched = none := by
    unfold State.obstacle? at hclear
    split_ifs at hclear
    exact hclear
  have hreg (r : Fin 16) (hr : (s.next p).cpu.reg r ≠ s.cpu.reg r) : Sets p.dialect s.word r :=
    Instruction.reg_footprint (s := s.fetched) hw hr
  exact {
    cycles := cycles_of_step h
    keys := s.instruction.outcome_keys p s.fetched
    size := s.instruction.size_outcome p s.fetched
    memory := fun a => Instruction.memory_footprint hw hins
    screen := Instruction.screen_footprint hw
    delay := Instruction.delay_footprint hw
    sound := Instruction.sound_footprint hw
    stack := Instruction.stack_footprint hw
    i := Instruction.i_footprint hw
    rng := Instruction.rng_footprint hw
    result := hreg _
    others := fun r hx hflag hr => (hreg r hr).restore_of_other hx hflag
    flag := fun hx hr => (hreg _ hr).flags_of_flag hx
    pc := s.follows_next p
  }

/-- a word that stores V0 and V1 behind itself -/
def storing : State where
  cpu := { v := Vector.replicate 16 7, i := 2 }
  memory := ⟨#[0xF1, 0x55, 0, 0]⟩
  screen := .dark 8 8
  rng := .ofSeed 0

theorem storing_frame :
    ∃ t, step {} storing = .ok (.store 1) t ∧ storing.Frame {} t ∧
      t.memory.bytes = #[0xF1, 0x55, 7, 7] ∧ t.cpu.i = 4 ∧ t.cpu.pc = 2 := by
  have hstep : step {} storing = .ok (.store 1) (storing.next {}) :=
    step_eq_ok.2 ⟨by decide +kernel, by decide +kernel, rfl⟩
  refine ⟨_, hstep, step_frame hstep, ?_, ?_, ?_⟩
  · decide +kernel
  · decide +kernel
  · decide +kernel

end Chip8
