/-
Sprites. Every bit of a sprite that is set switches over the pixel it falls on, and nothing else happens to the screen.
So a pixel is lit in the end if it was lit or not and the bits that fall on it come to an odd number, and a sprite
collides if they come to two or more somewhere. On a screen narrower or lower than the sprite several bits fall on one
pixel, and a sprite can collide with itself.

- `Screen.hits`, `Screen.Overdrawn`: what a sprite does, without the order in which it is drawn.
- `Screen.lit_toggleAll`, `Screen.collision_toggleAll`: pixels switched over one after the other.
- `Screen.count_cells`: the bits of a sprite that fall on a pixel, along the rows.
- `draw_switches_hits`: drawing, and the instruction that draws.
-/
import Mathlib.Algebra.BigOperators.Intervals
import Mathlib.Data.Int.Bitwise
import Mathlib.Data.Int.ModEq
import Chip8.Proofs.Bounds

namespace Chip8

open Finset

namespace Screen

/-! ## What a sprite falls on -/

/-- a screen with at least one column and one row, and a pixel for every place -/
structure WellFormed (s : Screen) : Prop where
  width_pos : 0 < s.width
  height_pos : 0 < s.height
  size : s.pixels.size = s.width * s.height

/-- a place `(x, y)` of the unbounded plane falls on pixel `(p, q)`: the same place if sprites are cut off at the edges,
the same but for whole screens if they come back at the other side -/
def Covers (s : Screen) (clip : Bool) (x y : Int) (p q : Nat) : Prop :=
  if clip then x = p ∧ y = q else x ≡ p [ZMOD s.width] ∧ y ≡ q [ZMOD s.height]

instance (s : Screen) (clip : Bool) (x y : Int) (p q : Nat) : Decidable (s.Covers clip x y p q) :=
  inferInstanceAs (Decidable (if clip then _ ∧ _ else _ ∧ _))

/-- how many bits of a sprite with its corner at `(x, y)` fall on pixel `(p, q)`; bit 7 of a row is its left end -/
def hits (s : Screen) (clip : Bool) (x y : Int) (rows : List Int) (p q : Nat) : Nat :=
  ((range rows.length ×ˢ range 8).filter fun rc =>
    (rows.getD rc.1 0).testBit (7 - rc.2) ∧ s.Covers clip (x % s.width + rc.2) (y % s.height + rc.1) p q).card

/-- at some pixel the bits of a sprite, and the pixel if it is lit, come to two or more -/
def Overdrawn (s : Screen) (clip : Bool) (x y : Int) (rows : List Int) : Prop :=
  ∃ p < s.width, ∃ q < s.height, 2 ≤ (s.lit p q).toNat + s.hits clip x y rows p q

instance (s : Screen) (clip : Bool) (x y : Int) (rows : List Int) : Decidable (s.Overdrawn clip x y rows) :=
  inferInstanceAs (Decidable (∃ p < s.width, _))

variable {s : Screen}

theorem WellFormed.of_create {width height : Int} (h : create width height = .ok s) : s.WellFormed := by
  have hdark := create_eq_dark h
  unfold create at h
  split_ifs at h with hpos
  subst hdark
  exact ⟨show 0 < width.toNat by omega, show 0 < height.toNat by omega, Array.size_replicate⟩

theorem WellFormed.of_sameShape {t : Screen} (hs : s.WellFormed) (h : SameShape s t) : t.WellFormed where
  width_pos := h.width ▸ hs.width_pos
  height_pos := h.height ▸ hs.height_pos
  size := by rw [h.size, h.width, h.height, hs.size]

/-! ## Pixels switched over one after the other -/

def Has (s : Screen) (pq : Nat × Nat) : Prop := pq.1 < s.width ∧ pq.2 < s.height

theorem Has.index_lt {c : Nat × Nat} (hc : s.Has c) : c.2 * s.width + c.1 < s.width * s.height := by
  obtain ⟨hp, hq⟩ := hc
  calc c.2 * s.width + c.1 < c.2 * s.width + s.width := by omega
    _ = (c.2 + 1) * s.width := by ring
    _ ≤ s.height * s.width := Nat.mul_le_mul_right _ hq
    _ = s.width * s.height := Nat.mul_comm _ _

theorem Has.index_inj {c d : Nat × Nat} (hc : s.Has c) (hd : s.Has d)
    (h : c.2 * s.width + c.1 = d.2 * s.width + d.1) : c = d := by
  have hpos : 0 < s.width := Nat.zero_lt_of_lt hc.1
  have hx : c.1 = d.1 := by
    have hmod := congrArg (· % s.width) h
    simpa only [Nat.mul_add_mod', Nat.mod_eq_of_lt hc.1, Nat.mod_eq_of_lt hd.1] using hmod
  have hy : c.2 = d.2 := by
    rw [hx] at h
    exact Nat.eq_of_mul_eq_mul_right hpos (by omega)
  exact Prod.ext hx hy

theorem Has.index_eq_iff {c d : Nat × Nat} (hc : s.Has c) (hd : s.Has d) :
    c.2 * s.width + c.1 = d.2 * s.width + d.1 ↔ c = d :=
  ⟨hc.index_inj hd, fun h => h ▸ rfl⟩

theorem getElem?_toggle (s : Screen) (c : Nat × Nat) (i : Nat) :
    (s.toggle c).pixels[i]? = if c.2 * s.width + c.1 = i then s.pixels[i]?.map (!·) else s.pixels[i]? :=
  Array.getElem?_modify

/-- switching one pixel over changes that pixel and no other -/
theorem lit_toggle (hs : s.WellFormed) {c d : Nat × Nat} (hc : s.Has c) (hd : s.Has d) :
    (s.toggle c).lit d.1 d.2 = if c = d then !s.lit d.1 d.2 else s.lit d.1 d.2 := by
  have hlt : d.2 * s.width + d.1 < s.pixels.size := by
    rw [hs.size]
    exact hd.index_lt
  unfold lit
  rw [(s.toggle_sameShape c).width, Array.getD_eq_getD_getElem?, Array.getD_eq_getD_getElem?, getElem?_toggle,
    if_congr (hc.index_eq_iff hd) rfl rfl]
  split_ifs with hcd
  · rw [Array.getElem?_eq_getElem hlt]
    rfl
  · rfl

theorem toggleAll_cons (s : Screen) (collision : Bool) (c : Nat × Nat) (cs : List (Nat × Nat)) :
    toggleAll (s, collision) (c :: cs) = toggleAll (s.toggle c, collision || s.lit c.1 c.2) cs := rfl

/-- a pixel switched over an odd number of times changes -/
theorem lit_toggleAll (hs : s.WellFormed) {cs : List (Nat × Nat)} (hcs : ∀ c ∈ cs, s.Has c) (collision : Bool)
    {d : Nat × Nat} (hd : s.Has d) :
    ((toggleAll (s, collision) cs).1.lit d.1 d.2).toNat = ((s.lit d.1 d.2).toNat + cs.count d) % 2 := by
  induction cs generalizing s collision with
  | nil =>
    cases hlit : s.lit d.1 d.2 <;> simp [toggleAll, hlit]
  | cons c cs ih =>
    have hc : s.Has c := hcs c List.mem_cons_self
    have hrest : ∀ e ∈ cs, (s.toggle c).Has e := fun e he => hcs e (List.mem_cons_of_mem c he)
    rw [toggleAll_cons, ih (hs.of_sameShape (s.toggle_sameShape c)) hrest _ hd, lit_toggle hs hc hd, List.count_cons]
    by_cases hcd : c = d
    · subst hcd
      cases s.lit c.1 c.2 <;> simp <;> omega
    · simp [hcd]

/-- a collision is noted if some pixel is met while it is lit: because it was, or because it has been switched on -/
theorem collision_toggleAll (hs : s.WellFormed) {cs : List (Nat × Nat)} (hcs : ∀ c ∈ cs, s.Has c) (collision : Bool) :
    (toggleAll (s, collision) cs).2 = true ↔
      collision = true ∨ ∃ d, s.Has d ∧ 2 ≤ (s.lit d.1 d.2).toNat + cs.count d := by
  induction cs generalizing s collision with
  | nil =>
    have hle (d : Nat × Nat) : (s.lit d.1 d.2).toNat ≤ 1 := Bool.toNat_le _
    simp only [toggleAll, List.foldl_nil, List.count_nil, Nat.add_zero]
    constructor
    · exact .inl
    · rintro (h | ⟨d, -, hd⟩)
      · exact h
      · exact absurd (hle d) (by omega)
  | cons c cs ih =>
    have hc : s.Has c := hcs c List.mem_cons_self
    have hrest : ∀ e ∈ cs, (s.toggle c).Has e := fun e he => hcs e (List.mem_cons_of_mem c he)
    -- the first pixel counts twice: it is met now, and it is switched on or off for the ones behind it
    have hmet (d : Nat × Nat) (hd : s.Has d) :
        2 ≤ (s.lit d.1 d.2).toNat + (c :: cs).count d ↔
          (c = d ∧ s.lit c.1 c.2 = true) ∨ 2 ≤ ((s.toggle c).lit d.1 d.2).toNat + cs.count d := by
      rw [lit_toggle hs hc hd, List.count_cons]
      by_cases hcd : c = d
      · subst hcd
        cases s.lit c.1 c.2 <;> grind
      · simp [hcd]
    rw [toggleAll_cons, ih (hs.of_sameShape (s.toggle_sameShape c)) hrest, Bool.or_eq_true, or_assoc]
    refine or_congr_right ?_
    constructor
    · rintro (hlit | ⟨d, hd, h⟩)
      · exact ⟨c, hc, (hmet c hc).2 (.inl ⟨rfl, hlit⟩)⟩
      · exact ⟨d, hd, (hmet d hd).2 (.inr h)⟩
    · rintro ⟨d, hd, h⟩
      rcases (hmet d hd).1 h with ⟨-, hlit⟩ | h
      · exact .inl hlit
      · exact .inr ⟨d, hd, h⟩

/-! ## A sprite as a list of pixels -/

/-- the bits of a row are those of two's complement -/
theorem rowBit_eq_testBit (row : Int) (c : Nat) : rowBit row c = row.testBit (7 - c) := by
  have hnat (m : Nat) : m.testBit (7 - c) = decide (m >>> (7 - c) % 2 = 1) := by
    rw [Nat.testBit_eq_decide_div_mod_eq, Nat.shiftRight_eq_div_pow]
  unfold rowBit
  rw [Bool.eq_iff_iff, beq_iff_eq]
  cases row with
  | ofNat m =>
    have hshift : Int.ofNat m >>> (7 - c) % 2 = ((m >>> (7 - c) % 2 : Nat) : Int) := rfl
    rw [hshift, Int.testBit, hnat, decide_eq_true_eq]
    omega
  | negSucc m =>
    rw [Int.negSucc_shiftRight, Int.testBit, hnat, Bool.not_eq_true', decide_eq_false_iff_not]
    omega

theorem has_of_place (hs : s.WellFormed) {clip : Bool} {x y : Nat} {c : Nat × Nat} (h : s.place clip x y = some c) :
    s.Has c := by
  unfold place at h
  split_ifs at h with hclip hin
  · cases h
    exact hin
  · cases h
    exact ⟨Nat.mod_lt x hs.width_pos, Nat.mod_lt y hs.height_pos⟩

theorem has_of_mem_cells (hs : s.WellFormed) {clip : Bool} {x y : Nat} {rows : List Int} {c : Nat × Nat}
    (h : c ∈ s.cells clip x y rows) : s.Has c := by
  induction rows generalizing y with
  | nil => cases h
  | cons row rows ih =>
    rw [cells, List.mem_append] at h
    rcases h with h | h
    · obtain ⟨k, -, hk⟩ := List.mem_filterMap.1 h
      split_ifs at hk
      exact has_of_place hs hk
    · exact ih h

/-- the pixel that a place falls on -/
theorem place_eq_some {clip : Bool} {x y : Nat} {c : Nat × Nat} (hc : s.Has c) :
    s.place clip x y = some c ↔ s.Covers clip x y c.1 c.2 := by
  obtain ⟨p, q⟩ := c
  obtain ⟨hp, hq⟩ : p < s.width ∧ q < s.height := hc
  cases clip with
  | true =>
    have hcovers : s.Covers true x y p q ↔ x = p ∧ y = q := by
      simp [Covers]
    rw [hcovers]
    constructor
    · intro h
      unfold place at h
      rw [if_pos rfl] at h
      split_ifs at h
      cases h
      exact ⟨rfl, rfl⟩
    · rintro ⟨rfl, rfl⟩
      unfold place
      rw [if_pos rfl, if_pos ⟨hp, hq⟩]
  | false =>
    have hmod {a k n : Nat} (h : k < n) : (a : Int) ≡ k [ZMOD n] ↔ a % n = k := by
      rw [Int.natCast_modEq_iff, Nat.ModEq, Nat.mod_eq_of_lt h]
    have hplace : s.place false x y = some (x % s.width, y % s.height) := rfl
    have hcovers : s.Covers false x y p q ↔ (x : Int) ≡ p [ZMOD s.width] ∧ (y : Int) ≡ q [ZMOD s.height] := Iff.rfl
    rw [hplace, hcovers, hmod hp, hmod hq, Option.some_inj, Prod.mk.injEq]

/-- how often a list read off from the first numbers holds a value -/
theorem count_filterMap_range {α : Type} [BEq α] [LawfulBEq α] [DecidableEq α] (f : Nat → Option α) (n : Nat) (a : α) :
    ((List.range n).filterMap f).count a = ∑ k ∈ range n, if f k = some a then 1 else 0 := by
  induction n with
  | zero => rfl
  | succ n ih =>
    have hlast : ([n].filterMap f).count a = if f n = some a then 1 else 0 := by
      cases hf : f n with
      | none => simp [hf]
      | some b => simp [hf, List.count_singleton]
    rw [List.range_succ, List.filterMap_append, List.count_append, ih, hlast, sum_range_succ]

theorem count_rowCells (clip : Bool) (x y : Nat) (row : Int) {c : Nat × Nat} (hc : s.Has c) :
    (s.rowCells clip x y row).count c =
      ∑ k ∈ range 8, if row.testBit (7 - k) ∧ s.Covers clip (x + k) y c.1 c.2 then 1 else 0 := by
  unfold rowCells
  rw [count_filterMap_range]
  refine sum_congr rfl fun k _ => if_congr ?_ rfl rfl
  rw [rowBit_eq_testBit, ← Nat.cast_add, ← place_eq_some hc]
  cases row.testBit (7 - k) <;> simp

theorem count_cells (clip : Bool) (x y : Nat) (rows : List Int) {c : Nat × Nat} (hc : s.Has c) :
    (s.cells clip x y rows).count c =
      ∑ r ∈ range rows.length, ∑ k ∈ range 8,
        if (rows.getD r 0).testBit (7 - k) ∧ s.Covers clip (x + k) (y + r) c.1 c.2 then 1 else 0 := by
  induction rows generalizing y with
  | nil => rfl
  | cons row rows ih =>
    have hbelow (r : Nat) : ((y + 1 : Nat) : Int) + r = y + (r + 1 : Nat) := by
      push_cast
      ring
    rw [cells, List.count_append, count_rowCells clip x y row hc, ih, List.length_cons,
      sum_range_succ' _ rows.length, Nat.add_comm]
    simp only [List.getD_cons_succ, List.getD_cons_zero, hbelow, Nat.cast_zero, add_zero]

/-- the pixels of a sprite, counted -/
theorem count_cells_eq_hits (hs : s.WellFormed) (clip : Bool) (x y : Int) (rows : List Int) {c : Nat × Nat}
    (hc : s.Has c) :
    (s.cells clip (x % s.width).toNat (y % s.height).toNat rows).count c = s.hits clip x y rows c.1 c.2 := by
  have hx : ((x % s.width).toNat : Int) = x % s.width :=
    Int.toNat_of_nonneg (Int.emod_nonneg x (by exact_mod_cast hs.width_pos.ne'))
  have hy : ((y % s.height).toNat : Int) = y % s.height :=
    Int.toNat_of_nonneg (Int.emod_nonneg y (by exact_mod_cast hs.height_pos.ne'))
  rw [count_cells _ _ _ _ hc, hits, card_filter, sum_product, hx, hy]

/-- drawing a sprite, pixel by pixel -/
theorem lit_draw (hs : s.WellFormed) (x y : Int) (rows : List Int) (clip : Bool) {p q : Nat} (hp : p < s.width)
    (hq : q < s.height) :
    ((s.draw x y rows clip).1.lit p q).toNat = ((s.lit p q).toNat + s.hits clip x y rows p q) % 2 := by
  have hd : s.Has (p, q) := ⟨hp, hq⟩
  unfold draw
  rw [lit_toggleAll hs (fun c hc => has_of_mem_cells hs hc) false hd, count_cells_eq_hits hs clip x y rows hd]

/-- whether a sprite collides -/
theorem collision_draw (hs : s.WellFormed) (x y : Int) (rows : List Int) (clip : Bool) :
    (s.draw x y rows clip).2 = true ↔ s.Overdrawn clip x y rows := by
  have hcount (d : Nat × Nat) (hd : s.Has d) := count_cells_eq_hits hs clip x y rows hd
  unfold draw
  rw [collision_toggleAll hs fun c hc => has_of_mem_cells hs hc]
  constructor
  · rintro (h | ⟨d, hd, h⟩)
    · cases h
    · rw [hcount d hd] at h
      exact ⟨d.1, hd.1, d.2, hd.2, h⟩
  · rintro ⟨p, hp, q, hq, h⟩
    refine .inr ⟨(p, q), ⟨hp, hq⟩, ?_⟩
    rwa [hcount (p, q) ⟨hp, hq⟩]

end Screen

/-! ## The instruction that draws -/

/-- VF after it has been set -/
theorem Cpu.reg_flagged (c : Cpu) (on : Bool) : (c.flagged (some on)).reg flag = if on then 1 else 0 :=
  Vector.getElem_set_self _

namespace State

def sprite (s : State) (n : Fin 16) : List Int :=
  (List.range n.val).map fun k => ((s.memory.byte (s.cpu.i.toNat + k)).toNat : Int)

/-- a cycle that draws: the screen and VF, in terms of the state before it -/
theorem drawn_of_step {p : Profile} {s t : State} {x y n : Fin 16} (h : Effect.step p s = .ok (.draw x y n) t) :
    t.screen = (s.screen.draw (s.cpu.reg x).toNat (s.cpu.reg y).toNat (s.sprite n) p.dialect.spritesClip).1 ∧
      t.cpu.reg Cpu.flag =
        if (s.screen.draw (s.cpu.reg x).toNat (s.cpu.reg y).toNat (s.sprite n) p.dialect.spritesClip).2 then 1
        else 0 := by
  obtain ⟨hnone, hins, rfl⟩ := Effect.step_eq_ok.1 h
  have hwindow : s.memory.window? s.cpu.i n.val = none := by
    unfold obstacle? at hnone
    rw [← hins] at hnone
    split_ifs at hnone
    exact hnone
  have hrows : (s.memory.read s.cpu.i.toNat n.val).map (fun b => (b.toNat : Int)) = s.sprite n := by
    rw [Memory.read_eq_map (Memory.fits_of_window? hwindow).2, List.map_map]
    rfl
  have hnext : s.next p = (s.fetched.drawn p.dialect.spritesClip x y n).counted := by
    unfold next
    rw [← hins]
    rfl
  rw [hnext, ← hrows]
  exact ⟨rfl, Cpu.reg_flagged _ _⟩

end State

/-- **A sprite switches over what its bits fall on.** On a screen of any size, at any place and for rows of any kind,
each pixel is switched over as often as bits of the sprite fall on it, and the sprite collides if that makes a pixel
count two or more together with what was lit. The instruction that draws puts the same answer into VF, from the
registers as they were before, even where VF is one of them. -/
theorem draw_switches_hits :
    (∀ (s : Screen) (x y : Int) (rows : List Int) (clip : Bool), s.WellFormed →
      s.SameShape (s.draw x y rows clip).1 ∧
      (∀ p q, p < s.width → q < s.height →
        ((s.draw x y rows clip).1.lit p q).toNat = ((s.lit p q).toNat + s.hits clip x y rows p q) % 2) ∧
      ((s.draw x y rows clip).2 = true ↔ s.Overdrawn clip x y rows)) ∧
    ∀ (p : Profile) (s t : State) (x y n : Fin 16), s.screen.WellFormed →
      Effect.step p s = .ok (.draw x y n) t →
      t.screen = (s.screen.draw (s.cpu.reg x).toNat (s.cpu.reg y).toNat (s.sprite n) p.dialect.spritesClip).1 ∧
      t.cpu.reg Cpu.flag =
        if s.screen.Overdrawn p.dialect.spritesClip (s.cpu.reg x).toNat (s.cpu.reg y).toNat (s.sprite n) then 1
        else 0 := by
  constructor
  · intro s x y rows clip hs
    exact ⟨s.draw_sameShape x y rows clip, fun p q hp hq => s.lit_draw hs x y rows clip hp hq,
      s.collision_draw hs x y rows clip⟩
  · intro p s t x y n hs hstep
    obtain ⟨hscreen, hflag⟩ := State.drawn_of_step hstep
    refine ⟨hscreen, hflag.trans (if_congr ?_ rfl rfl)⟩
    exact s.screen.collision_draw hs _ _ _ _

/-- a screen three pixels wide, and a row of eight whose place is read from VF -/
def folding : State where
  cpu := { v := Vector.replicate 16 7, i := 2 }
  memory := ⟨#[0xDF, 0xF1, 0xFF]⟩
  screen := .dark 3 1
  rng := .ofSeed 0

theorem folding_draws_over_itself :
    folding.screen.WellFormed ∧
      ∃ t, Effect.step { dialect := { spritesClip := false } } folding = .ok (.draw 15 15 1) t ∧
        t.cpu.reg Cpu.flag = 1 ∧ t.screen.lit 0 0 = false ∧ t.screen.lit 1 0 = true := by
  have hcreate : Screen.create 3 1 = .ok folding.screen := rfl
  have hs : folding.screen.WellFormed := .of_create hcreate
  have hstep : Effect.step { dialect := { spritesClip := false } } folding = .ok (.draw 15 15 1) (folding.next _) :=
    Effect.step_eq_ok.2 ⟨by decide +kernel, by decide +kernel, rfl⟩
  obtain ⟨hscreen, hflag⟩ := draw_switches_hits.2 _ _ _ _ _ _ hs hstep
  obtain ⟨-, hpixels, -⟩ := draw_switches_hits.1 folding.screen 7 7 [0xFF] false hs
  have hsprite : folding.sprite 1 = [0xFF] := by decide
  -- of the eight bits two fall on the first pixel and three on each of the others
  have hfirst : folding.screen.hits false 7 7 [0xFF] 0 0 = 2 := by decide +kernel
  have hsecond : folding.screen.hits false 7 7 [0xFF] 1 0 = 3 := by decide +kernel
  rw [hsprite] at hscreen
  refine ⟨hs, _, hstep, hflag.trans (by decide +kernel), ?_, ?_⟩
  · rw [hscreen]
    refine Bool.toNat_eq_zero.1 ((hpixels 0 0 (by decide) (by decide)).trans ?_)
    rw [hfirst]
    decide
  · rw [hscreen]
    refine Bool.toNat_eq_one.1 ((hpixels 1 0 (by decide) (by decide)).trans ?_)
    rw [hsecond]
    decide

end Chip8
