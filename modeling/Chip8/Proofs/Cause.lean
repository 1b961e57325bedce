/-
Why a cycle fails, told from the digits of the word at the program counter. `State.Cause p s f` lists the causes: for
each pattern of words the condition under which its cycle fails, and the fault that tells of it. Words that are named by
no cause are carried out from every state.

- `obstacle?_eq_some_iff`: what stands against a cycle is what the list says, and nothing else.
- `step_raises_iff`: a cycle fails with a fault if and only if there is its cause, pattern by pattern, and it succeeds
  if and only if there is none. A fetch outside memory comes before every other cause, and an address outside memory
  before a full stack; no other two causes meet.
-/
import Chip8.Proofs.Atomicity
import Chip8.Proofs.Decoding

namespace Chip8

open Effect

namespace Word

/-- how many bytes from I on the words of these patterns use: Dxyn, Fx33, Fx55 and Fx65 -/
inductive Uses (w : UInt16) : Nat → Prop where
  | draw : top w = 0xD → Uses w (n w).val
  | decimal : top w = 0xF → low w = 0x33 → Uses w 3
  | store : top w = 0xF → low w = 0x55 → Uses w ((x w).val + 1)
  | restore : top w = 0xF → low w = 0x65 → Uses w ((x w).val + 1)

theorem Uses.top {w : UInt16} {k : Nat} (h : Uses w k) : top w = 0xD ∨ top w = 0xF := by
  cases h with
  | draw htop => exact Or.inl htop
  | decimal htop _ => exact Or.inr htop
  | store htop _ => exact Or.inr htop
  | restore htop _ => exact Or.inr htop

/-- a word uses one number of bytes only -/
theorem Uses.unique {w : UInt16} {k l : Nat} (hk : Uses w k) (hl : Uses w l) : k = l := by
  cases hk <;> cases hl <;> first | rfl | omega

/-- the word asks for a key: Ex9E or ExA1 -/
def AsksKey (w : UInt16) : Prop := top w = 0xE ∧ (low w = 0x9E ∨ low w = 0xA1)

end Word

/-- the address that the word Bnnn jumps to: nnn and V0, or nnn and the register that its top digit names -/
def State.offsetTarget (p : Profile) (s : State) : Nat :=
  (Word.nnn s.word).val + (s.cpu.reg (if p.dialect.jumpAddsVx then Word.x s.word else 0)).toNat

/-- why the next cycle fails with a fault -/
inductive State.Cause (p : Profile) (s : State) : Fault → Prop where
  /-- the word at the program counter does not lie inside memory -/
  | fetch : s.memory.size ≤ s.cpu.pc + 1 → Cause p s (.addressOutOfBounds (s.cpu.pc + 1 : Nat) s.memory.size)
  /-- the word is no instruction -/
  | unknown : s.cpu.pc + 1 < s.memory.size → Instruction.decode s.word = .unknown s.word →
      Cause p s (.unsupportedOpcode s.word)
  /-- 00EE with no call open -/
  | ret : s.cpu.pc + 1 < s.memory.size → s.word = 0x00EE → s.cpu.stack.top.val = 0 → Cause p s .stackUnderflow
  /-- 1nnn or 2nnn to an address outside memory -/
  | target : s.cpu.pc + 1 < s.memory.size → Word.top s.word = 0x1 ∨ Word.top s.word = 0x2 →
      s.memory.size ≤ (Word.nnn s.word).val →
      Cause p s (.addressOutOfBounds (Word.nnn s.word).val s.memory.size)
  /-- 2nnn to an address inside memory with every slot taken -/
  | call : s.cpu.pc + 1 < s.memory.size → Word.top s.word = 0x2 → (Word.nnn s.word).val < s.memory.size →
      s.cpu.stack.top.val = 15 → Cause p s .stackOverflow
  /-- Bnnn to an address outside memory -/
  | offset : s.cpu.pc + 1 < s.memory.size → Word.top s.word = 0xB → s.memory.size ≤ s.offsetTarget p →
      Cause p s (.addressOutOfBounds (s.offsetTarget p) s.memory.size)
  /-- a word that uses bytes from I on, not all of them inside memory -/
  | window {k : Nat} : s.cpu.pc + 1 < s.memory.size → Word.Uses s.word k → s.memory.size < s.cpu.i + k →
      Cause p s (.addressOutOfBounds (max s.cpu.i s.memory.size) s.memory.size)
  /-- a word that asks for a key that the keypad does not have -/
  | key : s.cpu.pc + 1 < s.memory.size → Word.AsksKey s.word → 15 < (s.cpu.reg (Word.x s.word)).toNat →
      Cause p s (.noSuchKey (s.cpu.reg (Word.x s.word)).toNat)

def State.Raises (p : Profile) (s : State) (f : Fault) : Prop := ∃ t, step p s = .error f t

/-! ## What stands against an instruction, as conditions -/

theorem target?_eq_some {m : Memory} {target : Nat} {f : Fault} :
    m.target? target = some f ↔ m.size ≤ target ∧ f = .addressOutOfBounds target m.size := by
  unfold Memory.target?
  by_cases h : target < m.size
  · rw [if_pos h]
    constructor
    · intro hf
      cases hf
    · rintro ⟨hle, -⟩
      omega
  · rw [if_neg h]
    constructor
    · intro hf
      cases hf
      exact ⟨by omega, rfl⟩
    · rintro ⟨-, rfl⟩
      rfl

theorem window?_eq_some {m : Memory} {i : Int} {length : Nat} {f : Fault} (hi : 0 ≤ i) :
    m.window? i length = some f ↔ m.size < i + length ∧ f = .addressOutOfBounds (max i m.size) m.size := by
  unfold Memory.window?
  rw [if_neg (by omega)]
  by_cases h : m.size < i + length
  · rw [if_pos h]
    constructor
    · intro hf
      cases hf
      exact ⟨h, rfl⟩
    · rintro ⟨-, rfl⟩
      rfl
  · rw [if_neg h]
    constructor
    · intro hf
      cases hf
    · rintro ⟨hlt, -⟩
      exact absurd hlt h

/-! ## From obstacles to causes and back -/

namespace State

variable {p : Profile} {s : State} {f : Fault}

theorem offsetReg_nnn (d : Dialect) (w : UInt16) :
    d.offsetReg (Word.nnn w) = if d.jumpAddsVx then Word.x w else 0 := by
  apply Fin.ext
  have hdigit : w.toNat % 4096 / 256 = w.toNat / 256 % 16 := by omega
  unfold Dialect.offsetReg Word.nnn Word.x
  split_ifs
  · exact hdigit
  · rfl

theorem cause_of_window (hi : 0 ≤ s.cpu.i) (hf : s.cpu.pc + 1 < s.memory.size) {k : Nat} (hk : Word.Uses s.word k)
    (h : s.memory.window? s.cpu.i k = some f) : s.Cause p f := by
  obtain ⟨hout, rfl⟩ := (window?_eq_some hi).1 h
  exact .window hf hk hout

theorem cause_of_target (hf : s.cpu.pc + 1 < s.memory.size) (hw : Word.top s.word = 0x1 ∨ Word.top s.word = 0x2)
    (h : s.memory.target? (Word.nnn s.word).val = some f) : s.Cause p f := by
  obtain ⟨hout, rfl⟩ := target?_eq_some.1 h
  exact .target hf hw hout

theorem cause_of_key (hf : s.cpu.pc + 1 < s.memory.size) (hw : Word.AsksKey s.word)
    (h : (if (s.cpu.reg (Word.x s.word)).toNat < 16 then none
      else some (Fault.noSuchKey (s.cpu.reg (Word.x s.word)).toNat)) = some f) : s.Cause p f := by
  split_ifs at h with hkey
  cases h
  exact .key hf hw (by omega)

/-- what stands against the instruction at the program counter is a cause -/
theorem cause_of_instruction (hs : s.cpu.WellFormed) (hi : 0 ≤ s.cpu.i) (hf : s.cpu.pc + 1 < s.memory.size)
    (h : s.instruction.obstacle? p s.fetched = some f) : s.Cause p f := by
  have hw : s.instruction.Pattern s.word := Instruction.decode_pattern s.word
  cases hins : s.instruction with
  | ret =>
    rw [hins] at h hw
    simp only [Instruction.obstacle?] at h
    split_ifs at h with htop
    cases h
    exact .ret hf hw htop
  | jump addr =>
    rw [hins] at h hw
    obtain ⟨htop, rfl⟩ := hw
    exact cause_of_target hf (Or.inl htop) h
  | call addr =>
    rw [hins] at h hw
    obtain ⟨htop, rfl⟩ := hw
    rcases Option.or_eq_some_iff.1 h with h | ⟨hin, h⟩
    · exact cause_of_target hf (Or.inr htop) h
    · split_ifs at h with hfull
      cases h
      have hlt : (Word.nnn s.word).val < s.memory.size := by
        by_contra hge
        have hout := target?_eq_some.2 ⟨Nat.le_of_not_lt hge, rfl⟩
        change s.memory.target? (Word.nnn s.word).val = none at hin
        rw [hout] at hin
        cases hin
      exact .call hf htop hlt hfull
  | jumpOffset addr =>
    rw [hins] at h hw
    obtain ⟨htop, rfl⟩ := hw
    simp only [Instruction.obstacle?, offsetReg_nnn] at h
    obtain ⟨hout, rfl⟩ := target?_eq_some.1 h
    exact .offset hf htop hout
  | draw x y n =>
    rw [hins] at h hw
    obtain ⟨htop, -, -, rfl⟩ := hw
    exact cause_of_window hi hf (.draw htop) h
  | decimal x =>
    rw [hins] at h hw
    obtain ⟨htop, hlow, -⟩ := hw
    exact cause_of_window hi hf (.decimal htop hlow) h
  | store x =>
    rw [hins] at h hw
    obtain ⟨htop, hlow, rfl⟩ := hw
    exact cause_of_window hi hf (.store htop hlow) h
  | restore x =>
    rw [hins] at h hw
    obtain ⟨htop, hlow, rfl⟩ := hw
    exact cause_of_window hi hf (.restore htop hlow) h
  | skipKey x =>
    rw [hins] at h hw
    obtain ⟨htop, hlow, rfl⟩ := hw
    exact cause_of_key hf ⟨htop, Or.inl hlow⟩ h
  | skipNoKey x =>
    rw [hins] at h hw
    obtain ⟨htop, hlow, rfl⟩ := hw
    exact cause_of_key hf ⟨htop, Or.inr hlow⟩ h
  | readDelay x =>
    rw [hins] at h
    simp only [Instruction.obstacle?] at h
    rw [if_pos ⟨hs.delay_nonneg, hs.delay_lt⟩] at h
    cases h
  | unknown word =>
    rw [hins] at h hw
    cases hw
    cases h
    exact .unknown hf hins
  | _ =>
    rw [hins] at h
    cases h

/-- the instruction that a word of the table stands for -/
theorem instruction_of_pattern (ins : Instruction) (h : ins.Pattern s.word) (hknown : ∀ v, ins ≠ .unknown v) :
    s.instruction = ins := Instruction.decode_of_pattern h hknown

/-- bytes outside memory stand against every word that uses them -/
theorem obstacle?_of_uses (hi : 0 ≤ s.cpu.i) {k : Nat} (hk : Word.Uses s.word k) (hout : s.memory.size < s.cpu.i + k) :
    s.instruction.obstacle? p s.fetched =
      some (.addressOutOfBounds (max s.cpu.i s.memory.size) s.memory.size) := by
  have hwindow : s.memory.window? s.cpu.i k = some (.addressOutOfBounds (max s.cpu.i s.memory.size) s.memory.size) :=
    (window?_eq_some hi).2 ⟨hout, rfl⟩
  cases hk with
  | draw htop =>
    rw [instruction_of_pattern (.draw _ _ _) ⟨htop, rfl, rfl, rfl⟩ (by simp)]
    exact hwindow
  | decimal htop hlow =>
    rw [instruction_of_pattern (.decimal _) ⟨htop, hlow, rfl⟩ (by simp)]
    exact hwindow
  | store htop hlow =>
    rw [instruction_of_pattern (.store _) ⟨htop, hlow, rfl⟩ (by simp)]
    exact hwindow
  | restore htop hlow =>
    rw [instruction_of_pattern (.restore _) ⟨htop, hlow, rfl⟩ (by simp)]
    exact hwindow

/-- every cause stands against the next cycle -/
theorem obstacle?_of_cause (hi : 0 ≤ s.cpu.i) (h : s.Cause p f) : s.obstacle? p = some f := by
  unfold obstacle?
  cases h with
  | fetch hout => rw [if_neg (by omega)]
  | unknown hf hword =>
    rw [if_pos hf, instruction, hword]
    rfl
  | ret hf hword hempty =>
    rw [if_pos hf, instruction_of_pattern .ret hword (by simp)]
    exact if_pos hempty
  | target hf hword hout =>
    rw [if_pos hf]
    have htarget : s.memory.target? (Word.nnn s.word).val =
        some (.addressOutOfBounds (Word.nnn s.word).val s.memory.size) := target?_eq_some.2 ⟨hout, rfl⟩
    rcases hword with htop | htop
    · rw [instruction_of_pattern (.jump _) ⟨htop, rfl⟩ (by simp)]
      exact htarget
    · rw [instruction_of_pattern (.call _) ⟨htop, rfl⟩ (by simp)]
      exact Option.or_eq_some_iff.2 (Or.inl htarget)
  | call hf hword hin hfull =>
    rw [if_pos hf, instruction_of_pattern (.call _) ⟨hword, rfl⟩ (by simp)]
    exact Option.or_eq_some_iff.2 (Or.inr ⟨if_pos hin, if_pos hfull⟩)
  | offset hf hword hout =>
    rw [if_pos hf, instruction_of_pattern (.jumpOffset _) ⟨hword, rfl⟩ (by simp)]
    simp only [Instruction.obstacle?, offsetReg_nnn]
    exact target?_eq_some.2 ⟨hout, rfl⟩
  | window hf hk hout =>
    rw [if_pos hf]
    exact obstacle?_of_uses hi hk hout
  | key hf hword hkey =>
    rw [if_pos hf]
    have hno : ¬ (s.cpu.reg (Word.x s.word)).toNat < 16 := by omega
    obtain ⟨htop, hlow | hlow⟩ := hword
    · rw [instruction_of_pattern (.skipKey _) ⟨htop, hlow, rfl⟩ (by simp)]
      exact if_neg hno
    · rw [instruction_of_pattern (.skipNoKey _) ⟨htop, hlow, rfl⟩ (by simp)]
      exact if_neg hno

/-- what stands against a cycle is what the causes say -/
theorem obstacle?_eq_some_iff (hs : s.cpu.WellFormed) (hi : 0 ≤ s.cpu.i) : s.obstacle? p = some f ↔ s.Cause p f := by
  constructor
  · intro h
    unfold obstacle? at h
    split_ifs at h with hf
    · exact cause_of_instruction hs hi hf h
    · cases h
      exact .fetch (by omega)
  · exact obstacle?_of_cause hi

theorem raises_iff_cause (hs : s.cpu.WellFormed) (hi : 0 ≤ s.cpu.i) : s.Raises p f ↔ s.Cause p f := by
  rw [← obstacle?_eq_some_iff hs hi]
  constructor
  · rintro ⟨t, h⟩
    exact (step_eq_error.1 h).1
  · intro h
    exact ⟨_, step_eq_error.2 ⟨h, rfl⟩⟩

theorem succeeds_iff_no_cause (hs : s.cpu.WellFormed) (hi : 0 ≤ s.cpu.i) :
    (∃ ins t, step p s = .ok ins t) ↔ ∀ f, ¬ s.Cause p f := by
  constructor
  · rintro ⟨ins, t, h⟩ f hf
    rw [← obstacle?_eq_some_iff hs hi, (step_eq_ok.1 h).1] at hf
    cases hf
  · intro h
    refine ⟨_, _, step_eq_ok.2 ⟨?_, rfl, rfl⟩⟩
    cases hobstacle : s.obstacle? p with
    | none => rfl
    | some f => exact absurd ((obstacle?_eq_some_iff hs hi).1 hobstacle) (h f)

/-! ## The conditions, pattern by pattern -/

theorem cause_fetch_iff :
    s.Cause p (.addressOutOfBounds (s.cpu.pc + 1 : Nat) s.memory.size) ↔ s.memory.size ≤ s.cpu.pc + 1 := by
  constructor
  · intro h
    -- any other address outside memory is larger than the program counter's, which is inside
    generalize hf : Fault.addressOutOfBounds (s.cpu.pc + 1 : Nat) s.memory.size = f at h
    cases h with
    | fetch hout => exact hout
    | target hin _ hout => injection hf; omega
    | offset hin _ hout => injection hf; omega
    | window hin _ hout => injection hf; omega
    | _ => cases hf
  · exact .fetch

theorem cause_unknown_iff (hf : s.cpu.pc + 1 < s.memory.size) :
    s.Cause p (.unsupportedOpcode s.word) ↔ Instruction.decode s.word = .unknown s.word := by
  constructor
  · intro h
    generalize hfault : Fault.unsupportedOpcode s.word = f at h
    cases h with
    | unknown _ hword => exact hword
    | _ => cases hfault
  · exact .unknown hf

theorem cause_ret_iff (hf : s.cpu.pc + 1 < s.memory.size) :
    s.Cause p .stackUnderflow ↔ s.word = 0x00EE ∧ s.cpu.stack.top.val = 0 := by
  constructor
  · intro h
    cases h with
    | ret _ hword hempty => exact ⟨hword, hempty⟩
  · rintro ⟨hword, hempty⟩
    exact .ret hf hword hempty

theorem cause_target_iff (hf : s.cpu.pc + 1 < s.memory.size)
    (hword : Word.top s.word = 0x1 ∨ Word.top s.word = 0x2) :
    s.Cause p (.addressOutOfBounds (Word.nnn s.word).val s.memory.size) ↔ s.memory.size ≤ (Word.nnn s.word).val := by
  constructor
  · intro h
    generalize hfault : Fault.addressOutOfBounds (Word.nnn s.word).val s.memory.size = f at h
    cases h with
    | fetch hout => omega
    | target _ _ hout => exact hout
    | offset _ htop _ => omega
    | window _ huses _ => have := huses.top; omega
    | _ => cases hfault
  · exact .target hf hword

theorem cause_call_iff (hf : s.cpu.pc + 1 < s.memory.size) (hword : Word.top s.word = 0x2)
    (hin : (Word.nnn s.word).val < s.memory.size) : s.Cause p .stackOverflow ↔ s.cpu.stack.top.val = 15 := by
  constructor
  · intro h
    cases h with
    | call _ _ _ hfull => exact hfull
  · exact .call hf hword hin

theorem cause_offset_iff (hf : s.cpu.pc + 1 < s.memory.size) (hword : Word.top s.word = 0xB) :
    s.Cause p (.addressOutOfBounds (s.offsetTarget p) s.memory.size) ↔ s.memory.size ≤ s.offsetTarget p := by
  constructor
  · intro h
    generalize hfault : Fault.addressOutOfBounds (s.offsetTarget p) s.memory.size = f at h
    cases h with
    | fetch hout => omega
    | target _ htop _ => omega
    | offset _ _ hout => exact hout
    | window _ huses _ => have := huses.top; omega
    | _ => cases hfault
  · exact .offset hf hword

theorem cause_window_iff (hf : s.cpu.pc + 1 < s.memory.size) {k : Nat} (hk : Word.Uses s.word k) :
    s.Cause p (.addressOutOfBounds (max s.cpu.i s.memory.size) s.memory.size) ↔ s.memory.size < s.cpu.i + k := by
  have htop := hk.top
  constructor
  · intro h
    generalize hfault : Fault.addressOutOfBounds (max s.cpu.i s.memory.size) s.memory.size = f at h
    cases h with
    | fetch hout => omega
    | target _ htop' _ => omega
    | offset _ htop' _ => omega
    | window _ huses hout =>
      rw [hk.unique huses]
      exact hout
    | _ => cases hfault
  · exact .window hf hk

theorem cause_key_iff (hf : s.cpu.pc + 1 < s.memory.size) (hword : Word.AsksKey s.word) :
    s.Cause p (.noSuchKey (s.cpu.reg (Word.x s.word)).toNat) ↔ 15 < (s.cpu.reg (Word.x s.word)).toNat := by
  constructor
  · intro h
    generalize hfault : Fault.noSuchKey (s.cpu.reg (Word.x s.word)).toNat = f at h
    cases h with
    | key _ _ hkey => exact hkey
    | _ => cases hfault
  · exact .key hf hword

end State

/-- **Exactly when a cycle fails.** From a well-formed processor with I not negative, under every profile, with every
memory and screen: a cycle fails because of its fetch if and only if the word does not lie inside memory; otherwise, for
each pattern of words, it fails with the fault of the pattern if and only if the condition of the pattern holds. It
fails with a fault if and only if the fault has a cause, and in every other case it succeeds. -/
theorem step_raises_iff (p : Profile) (s : State) (hs : s.cpu.WellFormed) (hi : 0 ≤ s.cpu.i) :
    (s.Raises p (.addressOutOfBounds (s.cpu.pc + 1 : Nat) s.memory.size) ↔ s.memory.size ≤ s.cpu.pc + 1) ∧
    (s.cpu.pc + 1 < s.memory.size →
      (s.Raises p (.unsupportedOpcode s.word) ↔ Instruction.decode s.word = .unknown s.word) ∧
      (s.Raises p .stackUnderflow ↔ s.word = 0x00EE ∧ s.cpu.stack.top.val = 0) ∧
      (Word.top s.word = 0x1 ∨ Word.top s.word = 0x2 →
        (s.Raises p (.addressOutOfBounds (Word.nnn s.word).val s.memory.size) ↔
          s.memory.size ≤ (Word.nnn s.word).val)) ∧
      (Word.top s.word = 0x2 → (Word.nnn s.word).val < s.memory.size →
        (s.Raises p .stackOverflow ↔ s.cpu.stack.top.val = 15)) ∧
      (Word.top s.word = 0xB →
        (s.Raises p (.addressOutOfBounds (s.offsetTarget p) s.memory.size) ↔ s.memory.size ≤ s.offsetTarget p)) ∧
      (∀ k, Word.Uses s.word k →
        (s.Raises p (.addressOutOfBounds (max s.cpu.i s.memory.size) s.memory.size) ↔
          s.memory.size < s.cpu.i + k)) ∧
      (Word.AsksKey s.word →
        (s.Raises p (.noSuchKey (s.cpu.reg (Word.x s.word)).toNat) ↔ 15 < (s.cpu.reg (Word.x s.word)).toNat))) ∧
    (∀ f, s.Raises p f ↔ s.Cause p f) ∧
    ((∃ ins t, step p s = .ok ins t) ↔ ∀ f, ¬ s.Cause p f) := by
  refine ⟨?_, fun hf => ⟨?_, ?_, fun hword => ?_, fun hword hin => ?_, fun hword => ?_, fun k hk => ?_,
    fun hword => ?_⟩, fun f => State.raises_iff_cause hs hi, State.succeeds_iff_no_cause hs hi⟩
  all_goals rw [State.raises_iff_cause hs hi]
  · exact State.cause_fetch_iff
  · exact State.cause_unknown_iff hf
  · exact State.cause_ret_iff hf
  · exact State.cause_target_iff hf hword
  · exact State.cause_call_iff hf hword hin
  · exact State.cause_offset_iff hf hword
  · exact State.cause_window_iff hf hk
  · exact State.cause_key_iff hf hword

/-- a call to a good address with every slot of the stack taken -/
def crowdedCall : State :=
  { cpu := { stack := { top := 15 } }, memory := ⟨#[0x20, 0x00]⟩, screen := .dark 8 8, rng := .ofSeed 0 }

theorem crowdedCall_raises :
    crowdedCall.cpu.WellFormed ∧ crowdedCall.cpu.i = 0 ∧ crowdedCall.word = 0x2000 ∧
      crowdedCall.Raises {} .stackOverflow ∧ ¬ crowdedCall.Raises {} (.addressOutOfBounds 1 2) := by
  have hwell : crowdedCall.cpu.WellFormed := ⟨by decide, by decide, by decide, by decide⟩
  obtain ⟨hfetch, hpatterns, -⟩ := step_raises_iff {} crowdedCall hwell (by decide)
  obtain ⟨-, -, -, hcall, -⟩ := hpatterns (by decide)
  refine ⟨hwell, rfl, by decide, (hcall (by decide) (by decide)).2 rfl, fun h => ?_⟩
  exact absurd (hfetch.1 h) (by decide)

end Chip8
