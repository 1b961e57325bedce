/-
Pointers to digits. A reset puts the font where the configuration says, and a configuration is accepted only if the font
fits there; Fx29 computes where a digit lies from that address and cuts nothing off the result. So as long as no image
and no instruction writes into the font, I designates the digit in Vx after Fx29, wherever the font lies.

- `State.HasFont`: the font is in memory. `HasFont.fresh`, `HasFont.loaded`: at the start; `HasFont.apply`, then
  `HasFont.after`: through one event and through many.
- `HasFont.read_glyph`: the five bytes of a digit.
- `State.Designates`: I is the address of a digit; `Designates.draw_succeeds`: it can be drawn.
- `font_pointer_designates_glyph`: all of it, from any machine that begins anew.
-/
import Chip8.Proofs.Transfer
import Chip8.Proofs.Loaders

namespace Chip8

open Act

/-! ## Digits -/

theorem Font.getElem?_glyph (d k : Nat) :
    (glyph d)[k]? = if k < glyphSize then bytes[d * glyphSize + k]? else none := by
  rw [glyph, List.getElem?_take, List.getElem?_drop]

/-! ## Images that leave the font alone -/

namespace Image

/-- an image that fits has a byte for the address -/
def Covers (start a : Int) : Image → Prop
  | raw bs => start ≤ a ∧ a < start + bs.length
  | numbers values => start ≤ a ∧ a < start + values.length
  | sparse cells => a ∈ cells.map Prod.fst

variable {m t : Memory} {start : Int} {n k : Nat}

theorem byte_loadBytes_of_not_mem {bs : List UInt8} (h : loadBytes m start bs = .ok (t, n))
    (hk : ¬ (start ≤ k ∧ (k : Int) < start + bs.length)) : t.byte k = m.byte k := by
  obtain ⟨⟨⟩, hcheck, hwrite⟩ := ok_of_bind h
  cases hwrite
  obtain ⟨hlow, -⟩ := Memory.check_eq_ok_iff.1 hcheck
  exact Memory.byte_write_of_not_mem m (by omega)

/-- what an image has no byte for stays as it is -/
theorem byte_load_of_not_covers {image : Image} (h : image.load m start = .ok (t, n)) (hk : ¬ image.Covers start k) :
    t.byte k = m.byte k := by
  cases image with
  | raw bs => exact byte_loadBytes_of_not_mem (ok_of_mapError h) hk
  | numbers values =>
    simp only [load] at h
    cases hbytes : bytes? values with
    | none =>
      rw [hbytes] at h
      cases h
    | some bs =>
      rw [hbytes] at h
      rw [Covers, ← length_bytes? hbytes] at hk
      exact byte_loadBytes_of_not_mem (ok_of_mapError h) hk
  | sparse cells =>
    obtain ⟨⟨⟩, hcheck, hwrite⟩ := ok_of_bind (ok_of_mapError h)
    cases hwrite
    exact byte_foldl_write_of_not_mem (checkCells_eq_ok_iff.1 hcheck) hk

end Image

/-! ## The font in memory -/

def Config.InFont (c : Config) (a : Int) : Prop := c.fontStart ≤ a ∧ a < c.fontStart + Font.bytes.length

/-- memory has its size, and the font lies where the configuration says -/
structure State.HasFont (c : Config) (s : State) : Prop where
  size : (s.memory.size : Int) = c.memorySize
  byte : ∀ j b, Font.bytes[j]? = some b → s.memory.byte (c.fontStart.toNat + j) = b

namespace State.HasFont

variable {c : Config} {p : Profile} {s t : State}

theorem fresh (hc : c.Valid) (rng : Twister) : (State.fresh c rng).HasFont c where
  size := State.size_fresh_of_valid hc rng
  byte j b hb := by
    rw [State.byte_fresh hc, if_pos (Nat.le_add_right _ j), Nat.add_sub_cancel_left, hb]
    rfl

/-- the font stays if memory keeps its size and the bytes of the font -/
theorem of_byte_eq (hc : c.Valid) (h : s.HasFont c) (hsize : t.memory.size = s.memory.size)
    (hbyte : ∀ a : Nat, c.InFont a → t.memory.byte a = s.memory.byte a) : t.HasFont c where
  size := by rw [hsize, h.size]
  byte j b hb := by
    have hstart := hc.font_nonneg
    obtain ⟨hj, -⟩ := List.getElem?_eq_some_iff.1 hb
    have hin : c.InFont (c.fontStart.toNat + j : Nat) := ⟨by omega, by omega⟩
    rw [hbyte _ hin, h.byte j b hb]

theorem loaded (hc : c.Valid) (h : s.HasFont c) {image : Image} {memory : Memory} {n : Nat}
    (hload : image.load s.memory c.programStart = .ok (memory, n))
    (hspares : ∀ a : Nat, c.InFont a → ¬ image.Covers c.programStart a) : State.HasFont c { s with memory } :=
  h.of_byte_eq hc (Image.size_load hload) fun a ha => Image.byte_load_of_not_covers hload (hspares a ha)

/-- **One event** that writes nothing into the font leaves it there. -/
theorem apply (hc : c.Valid) (h : s.HasFont c) {e : Event} (hspares : ∀ a : Nat, c.InFont a → ¬ e.Writes p s a) :
    (e.apply p s).HasFont c :=
  h.of_byte_eq hc (e.size_apply p s) fun a ha => Event.byte_apply (hspares a ha)

/-- **Events** that write nothing into the font leave it there. -/
theorem after (hc : c.Valid) (h : s.HasFont c) {es : List Event} (hspares : ∀ a : Nat, c.InFont a → s.Spares p a es) :
    (s.after p es).HasFont c := by
  induction es generalizing s with
  | nil => exact h
  | cons e es ih =>
    refine ih (h.apply hc fun a ha => (hspares a ha).1) fun a ha => ?_
    exact (hspares a ha).2

/-- a digit lies inside memory -/
theorem glyph_le (hc : c.Valid) (h : s.HasFont c) {d : Nat} (hd : d < 16) :
    c.fontStart.toNat + d * Font.glyphSize + Font.glyphSize ≤ s.memory.size := by
  have hsize := h.size
  have hstart := hc.font_nonneg
  have hfits := hc.font_le
  simp only [Font.glyphSize, Font.bytes, List.length_cons, List.length_nil] at hfits ⊢
  omega

theorem read_glyph (hc : c.Valid) (h : s.HasFont c) {d : Nat} (hd : d < 16) :
    s.memory.read (c.fontStart.toNat + d * Font.glyphSize) Font.glyphSize = Font.glyph d := by
  refine List.ext_getElem? fun k => ?_
  rw [Memory.getElem?_read (h.glyph_le hc hd), Font.getElem?_glyph]
  split_ifs with hk
  · have hplace : d * Font.glyphSize + k < Font.bytes.length := by
      simp only [Font.glyphSize, Font.bytes, List.length_cons, List.length_nil] at hk ⊢
      omega
    have hbyte := h.byte _ _ (List.getElem?_eq_getElem hplace)
    rw [← add_assoc] at hbyte
    rw [hbyte, List.getElem?_eq_getElem hplace]
  · rfl

end State.HasFont

/-! ## Where I points -/

namespace State

/-- I is the address of a digit, all of which lies inside memory -/
structure Designates (s : State) (d : Nat) : Prop where
  start_nonneg : 0 ≤ s.cpu.i
  end_le : s.cpu.i + Font.glyphSize ≤ s.memory.size
  glyph : s.memory.read s.cpu.i.toNat Font.glyphSize = Font.glyph d

variable {c : Config} {p : Profile} {s t : State} {d : Nat}

/-- nothing stands against Fx29, and I designates the digit after it -/
theorem HasFont.step_glyph (hc : c.Valid) (h : s.HasFont c) (hfetch : s.cpu.pc + 1 < s.memory.size)
    (htop : Word.top s.word = 0xF) (hlow : Word.low s.word = 0x29) :
    ∃ t, Effect.step c.profile s = .ok (.glyph (Word.x s.word)) t ∧
      t.cpu.i = c.fontStart + ((s.cpu.reg (Word.x s.word)).toNat % 16 * Font.glyphSize : Nat) ∧
      t.Designates ((s.cpu.reg (Word.x s.word)).toNat % 16) := by
  have hins : s.instruction = .glyph (Word.x s.word) := instruction_of_pattern (.glyph _) ⟨htop, hlow, rfl⟩ (by simp)
  have hclear : s.obstacle? c.profile = none := by
    rw [obstacle?, if_pos hfetch, hins]
    rfl
  have hindex : (s.next c.profile).cpu.i =
      c.fontStart + ((s.cpu.reg (Word.x s.word)).toNat % 16 * Font.glyphSize : Nat) := by
    rw [next, hins, Nat.cast_mul, Int.natCast_mod]
    rfl
  have hmemory : (s.next c.profile).memory = s.memory := by
    rw [next, hins]
    rfl
  have hd : (s.cpu.reg (Word.x s.word)).toNat % 16 < 16 := Nat.mod_lt _ (by decide)
  have hstart := hc.font_nonneg
  have hend := h.glyph_le hc hd
  refine ⟨_, Effect.step_eq_ok.2 ⟨hclear, hins.symm, rfl⟩, hindex, ?_⟩
  generalize (s.cpu.reg (Word.x s.word)).toNat % 16 = d at hindex hd hend
  have hplace : (s.next c.profile).cpu.i.toNat = c.fontStart.toNat + d * Font.glyphSize := by omega
  refine ⟨by omega, ?_, ?_⟩
  · rw [hmemory]
    omega
  · rw [hmemory, hplace, h.read_glyph hc hd]

/-- nothing stands against drawing a digit that I designates or did designate, by itself or by a cycle -/
theorem Designates.draw_succeeds (h : s.Designates d) (hindex : t.cpu.i = s.cpu.i)
    (hsize : t.memory.size = s.memory.size) {n : Fin 16} (hn : n.val ≤ Font.glyphSize) (x y : Fin 16) :
    (∃ u, Effect.execute p (.draw x y n) t = .ok () u) ∧
      (t.cpu.pc + 1 < t.memory.size → t.instruction = .draw x y n → ∃ u, Effect.step p t = .ok (.draw x y n) u) := by
  have hstart := h.start_nonneg
  have hend := h.end_le
  have hclear : t.memory.window? t.cpu.i n.val = none := Memory.window?_eq_none.2 (by omega)
  exact succeeds_of_clear hclear hclear

end State

/-! ## Where programs begin -/

/-- a machine of the configuration begins anew: after a reset, or after a load of something that has no byte for the
font, whether it was put into memory or did not fit there -/
inductive Machine.Begins {κ : Type} [Credit κ] (c : Config) (m : Machine κ) : Machine κ → Prop
  | reset : Begins c m (left Machine.reset m)
  | load {rom : Rom} {image : Image} : rom.read = .ok image →
      (image.Unfit c ∨ ∀ a : Nat, c.InFont a → ¬ image.Covers c.programStart a) → Begins c m (left rom.load m)

theorem Machine.Begins.hasFont {κ : Type} [Credit κ] {c : Config} {m t : Machine κ} (hc : c.Valid) (hm : m.Within c)
    (h : Machine.Begins c m t) : t.state.HasFont c := by
  have hfresh : (State.fresh c m.state.rng).HasFont c := .fresh hc _
  cases h with
  | reset =>
    rw [left_of_ok (Machine.reset_apply hc hm)]
    exact hfresh
  | @load rom image hread hspares =>
    cases hload : image.load (State.fresh c m.state.rng).memory c.programStart with
    | error e =>
      have hrefused : rom.load m = .error (.load e) (Machine.fresh c m.state.rng) := by
        rw [Rom.load_of_read hread, Machine.load_apply hc hm, hload]
      rw [left_of_error hrefused]
      exact hfresh
    | ok r =>
      obtain ⟨memory, count⟩ := r
      have hfits : ¬ image.Unfit c := (Image.load_succeeds_iff hc hfresh.size).1 ⟨_, hload⟩
      have hloaded : rom.load m = .ok (count, [.romLoaded count]) { (Machine.fresh c m.state.rng : Machine κ) with
          state := { State.fresh c m.state.rng with memory } } := by
        rw [Rom.load_of_read hread, Machine.load_apply hc hm, hload]
      rw [left_of_ok hloaded]
      exact hfresh.loaded hc hload (hspares.resolve_left hfits)

/-- **The font pointer designates the digit.** Anything has been done with a machine of an accepted configuration, and
it is reset, or asked to load something that has no byte for the font. Then let there be any cycles, beats of the timers
and keys of which none writes into the font. If the word at the program counter is Fx29 then, the cycle succeeds, and I
designates the digit in the low half of Vx: five bytes from I on lie inside memory and are those of the digit. In every
state with this I and as much memory, nothing stands against a sprite of five rows or fewer. -/
theorem font_pointer_designates_glyph {κ : Type} [Credit κ] {v : Value} {c : Config} {ns : List Notice}
    {m₀ m start : Machine κ} (hv : Config.ofValue v = (.ok c, ns)) (hm₀ : Machine.create c = .ok m₀) (rng : Twister)
    (ops : List (Session.Op κ)) (hm : m = (Session.after ops (.start (m₀.withRng rng))).machine)
    (hstart : Machine.Begins c m start) {es : List Event}
    (hspares : ∀ a : Nat, c.InFont a → start.state.Spares c.profile a es) {s : State}
    (hs : s = start.state.after c.profile es) (hfetch : s.cpu.pc + 1 < s.memory.size)
    (htop : Word.top s.word = 0xF) (hlow : Word.low s.word = 0x29) :
    ∃ t, Effect.step c.profile s = .ok (.glyph (Word.x s.word)) t ∧
      t.cpu.i = c.fontStart + ((s.cpu.reg (Word.x s.word)).toNat % 16 * Font.glyphSize : Nat) ∧
      t.Designates ((s.cpu.reg (Word.x s.word)).toNat % 16) ∧
      ∀ u : State, u.cpu.i = t.cpu.i → u.memory.size = t.memory.size → ∀ x y n : Fin 16, n.val ≤ Font.glyphSize →
        (∃ w, Effect.execute c.profile (.draw x y n) u = .ok () w) ∧
        (u.cpu.pc + 1 < u.memory.size → u.instruction = .draw x y n →
          ∃ w, Effect.step c.profile u = .ok (.draw x y n) w) := by
  have hc := Config.valid_of_ofValue hv
  have hwithin : m.Within c := by
    rw [hm]
    exact Session.machine_within hv hm₀ rng ops
  have hfont : s.HasFont c := by
    rw [hs]
    exact (hstart.hasFont hc hwithin).after hc hspares
  obtain ⟨t, hstep, hindex, hdigit⟩ := hfont.step_glyph hc hfetch htop hlow
  refine ⟨t, hstep, hindex, hdigit, ?_⟩
  intro u hi hsize x y n hn
  exact hdigit.draw_succeeds hi hsize hn x y

/-- a hundred bytes, the last of which are the font -/
def Config.fontLast : Config := { memorySize := 100, programStart := 0, fontStart := 20, width := 1, height := 1 }

def Config.fontLastDocument : Value :=
  .map [(.text "memory_size", .int 100), (.text "program_start", .int 0), (.text "font_start", .int 20),
    (.text "screen", .map [(.text "width", .int 1), (.text "height", .int 1)])]

def Machine.fontLast : Machine Rat := .fresh .fontLast (.ofSeed 0)

/-- V3 is set to 15, and I to the last digit -/
def Image.lastDigit : Image := .raw [0x63, 0x0F, 0xF3, 0x29]

theorem fontLast_designates :
    ∃ m : Machine Rat,
      m = (Session.after [.step, .setKey 3 true] (.start (Machine.fontLast.withRng (.ofSeed 1)))).machine ∧
      ∃ s t, s = (left (Rom.direct .lastDigit).load m).state.after Config.fontLast.profile [.step, .tick, .key 2 true] ∧
        Effect.step Config.fontLast.profile s = .ok (.glyph 3) t ∧ t.cpu.i = 95 ∧ t.Designates 15 := by
  have hv : Config.ofValue Config.fontLastDocument = (.ok .fontLast, []) := rfl
  have hm₀ : Machine.create .fontLast = .ok Machine.fontLast := rfl
  let m := (Session.after [.step, .setKey 3 true] (.start (Machine.fontLast.withRng (.ofSeed 1)))).machine
  let start := left (Rom.direct .lastDigit).load m
  let s := start.state.after Config.fontLast.profile [.step, .tick, .key 2 true]
  have hstart : Machine.Begins .fontLast m start := by
    have hread : (Rom.direct .lastDigit).read = .ok .lastDigit := rfl
    refine .load hread (.inr ?_)
    rintro a ⟨hlow, -⟩ ⟨-, hhigh⟩
    exact absurd (hlow.trans_lt hhigh) (by decide)
  have hspares (a : Nat) (_ : Config.fontLast.InFont a) :
      start.state.Spares Config.fontLast.profile a [.step, .tick, .key 2 true] := by
    refine ⟨Event.not_writes_of_top (by decide +kernel), ?_, ?_, trivial⟩
    · rintro ⟨hdone, -⟩
      cases hdone
    · rintro ⟨hdone, -⟩
      cases hdone
  obtain ⟨t, hstep, hindex, hdigit, -⟩ := font_pointer_designates_glyph hv hm₀ (.ofSeed 1) [.step, .setKey 3 true] rfl
    hstart hspares (s := s) rfl (by decide +kernel) (by decide +kernel) (by decide +kernel)
  have hx : Word.x s.word = 3 := by decide +kernel
  have hreg : (s.cpu.reg 3).toNat % 16 = 15 := by decide +kernel
  rw [hx] at hstep hindex hdigit
  rw [hreg] at hindex hdigit
  exact ⟨m, rfl, s, t, rfl, hstep, hindex, hdigit⟩

end Chip8
