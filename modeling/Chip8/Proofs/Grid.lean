/-
The screen as a grid. Pixels stand in one row after another, as bytes that are 0 or 1, and drawing, setting and clearing
each work out for themselves where in this buffer a pixel is. Whatever they do and in whatever order, what is read from
the buffer is a grid: of the width and height that were asked for, with one pixel for each column and row.

- `Screen.edits`: a new screen drawn on, set and cleared.
- `Screen.row_eq`, `Screen.pixels_eq`: the buffer, column by column and row by row.
- `Screen.buffer_of_attempt`: what an edit does to the bytes.
- `Screen.WellFormed.isGrid`: what a screen shows, counts and refuses is told by its pixels.
- `edits_leave_grid`: a new screen is a grid, and remains one.
-/
import Chip8.Proofs.Drawings

namespace Chip8

open Finset

inductive Edit where
  | draw (d : Drawing)
  /-- set a pixel, which is lit for every value but 0 -/
  | set (x y value : Int)
  | clear
  deriving DecidableEq, Repr

namespace Screen

/-! ## Edits -/

/-- an edit, or why it is refused -/
def attempt (s : Screen) : Edit → Except Error Screen
  | .draw d => .ok (s.drawn d).1
  | .set x y value => s.setPixel x y (value ≠ 0)
  | .clear => .ok s.clear

/-- the screen after an edit, which is the screen before it if it is refused -/
def edit (s : Screen) (e : Edit) : Screen :=
  match s.attempt e with
  | .ok t => t
  | .error _ => s

def edits (s : Screen) (es : List Edit) : Screen := es.foldl edit s

/-- the buffer: a byte for each pixel -/
def buffer (s : Screen) : Array UInt8 := s.pixels.map Bool.toUInt8

/-- what an edit of a screen does to its buffer -/
def rewritten (s : Screen) (buffer : Array UInt8) : Edit → Array UInt8
  | .draw d => (s.touched d).foldl (fun buffer c => buffer.modify (c.2 * s.width + c.1) (· ^^^ 1)) buffer
  | .set x y value => buffer.setIfInBounds (y.toNat * s.width + x.toNat) (if value = 0 then 0 else 1)
  | .clear => .replicate (s.width * s.height) 0

/-- a grid of pixels: all that there is to see of the screen is told by the pixels `(x, y)` with `x` below the width and
`y` below the height -/
structure IsGrid (s : Screen) (width height : Nat) : Prop where
  size : s.buffer.size = width * height
  bits : ∀ b ∈ s.buffer, b = 0 ∨ b = 1
  /-- a pixel past an edge is not there, and trying to set it changes nothing -/
  refuses : ∀ x y value : Int, ¬(0 ≤ x ∧ x < width ∧ 0 ≤ y ∧ y < height) →
    s.pixel x y = .error (.noSuchPixel x y width height) ∧
      s.attempt (.set x y value) = .error (.noSuchPixel x y width height) ∧ s.edit (.set x y value) = s
  /-- a pixel that is set is what it is set to, and no other pixel changes -/
  sets : ∀ x y value : Int, 0 ≤ x ∧ x < width ∧ 0 ≤ y ∧ y < height →
    s.attempt (.set x y value) = .ok (s.edit (.set x y value)) ∧ SameShape s (s.edit (.set x y value)) ∧
      ∀ i j, (s.edit (.set x y value)).pixel i j = if i = x ∧ j = y then .ok (decide (value ≠ 0)) else s.pixel i j
  count : s.litCount = ((range width ×ˢ range height).filter fun p => s.pixel p.1 p.2 = .ok true).card
  text : ∀ on off : String, s.toText on off =
    "\n".intercalate ((List.range height).map fun y : Nat =>
      String.join ((List.range width).map fun x : Nat => if s.pixel x y = .ok true then on else off))

variable {s t : Screen}

/-- a pixel is set if it is there -/
theorem setPixel_eq_ok_iff {x y : Int} {on : Bool} :
    s.setPixel x y on = .ok t ↔
      s.Contains x y ∧ t = { s with pixels := s.pixels.setIfInBounds (y.toNat * s.width + x.toNat) on } := by
  unfold setPixel
  split_ifs with hin
  · rw [Except.ok.injEq, eq_comm, and_iff_right hin]
  · exact iff_of_false (fun h => by cases h) fun h => hin h.1

/-! ## The shape of an edited screen -/

theorem attempt_sameShape (hs : s.WellFormed) {e : Edit} (h : s.attempt e = .ok t) : SameShape s t := by
  cases e with
  | draw d =>
    cases h
    exact s.drawn_sameShape d
  | set x y value => exact setPixel_sameShape h
  | clear =>
    cases h
    exact ⟨rfl, rfl, Array.size_replicate.trans hs.size.symm⟩

theorem edit_sameShape (hs : s.WellFormed) (e : Edit) : SameShape s (s.edit e) := by
  unfold edit
  cases h : s.attempt e with
  | ok t => exact attempt_sameShape hs h
  | error f => exact .refl s

theorem edits_sameShape (hs : s.WellFormed) (es : List Edit) : SameShape s (s.edits es) := by
  induction es generalizing s with
  | nil => exact .refl s
  | cons e es ih =>
    have hfirst := edit_sameShape hs e
    exact hfirst.trans (ih (hs.of_sameShape hfirst))

/-! ## Bytes -/

/-- switching a pixel over is an exclusive or with 1 -/
theorem buffer_toggle (s : Screen) (c : Nat × Nat) :
    (s.toggle c).buffer = s.buffer.modify (c.2 * s.width + c.1) (· ^^^ 1) := by
  have hxor (on : Bool) : (!on).toUInt8 = on.toUInt8 ^^^ 1 := by cases on <;> rfl
  refine Array.ext_getElem? fun i => ?_
  unfold buffer
  rw [Array.getElem?_map, getElem?_toggle, Array.getElem?_modify, Array.getElem?_map]
  split_ifs
  · cases s.pixels[i]? with
    | none => rfl
    | some on => exact congrArg some (hxor on)
  · rfl

theorem buffer_foldl_toggle (s : Screen) (cs : List (Nat × Nat)) :
    (cs.foldl toggle s).buffer =
      cs.foldl (fun buffer c => buffer.modify (c.2 * s.width + c.1) (· ^^^ 1)) s.buffer := by
  induction cs generalizing s with
  | nil => rfl
  | cons c cs ih => rw [List.foldl_cons, ih, buffer_toggle, (s.toggle_sameShape c).width, List.foldl_cons]

/-- what an edit does to the bytes -/
theorem buffer_of_attempt {e : Edit} (h : s.attempt e = .ok t) : t.buffer = s.rewritten s.buffer e := by
  cases e with
  | draw d =>
    cases h
    rw [drawn_eq_toggled]
    exact s.buffer_foldl_toggle _
  | set x y value =>
    have hbyte : (decide (value ≠ 0)).toUInt8 = if value = 0 then 0 else 1 := by
      by_cases hvalue : value = 0
      · rw [if_pos hvalue, decide_eq_false (not_not_intro hvalue)]
        rfl
      · rw [if_neg hvalue, decide_eq_true hvalue]
        rfl
    obtain ⟨-, rfl⟩ := setPixel_eq_ok_iff.1 h
    unfold buffer rewritten
    rw [Array.map_setIfInBounds, hbyte]
  | clear =>
    cases h
    exact Array.map_replicate

theorem bits_buffer (s : Screen) : ∀ b ∈ s.buffer, b = 0 ∨ b = 1 := by
  intro b hb
  obtain ⟨on, -, rfl⟩ := Array.mem_map.1 hb
  cases on with
  | false => exact .inl rfl
  | true => exact .inr rfl

/-! ## Rows and columns -/

/-- the part of the buffer that a row is read from -/
theorem row_eq (hs : s.WellFormed) {y : Nat} (hy : y < s.height) :
    (s.pixels.extract (y * s.width) ((y + 1) * s.width)).toList = (List.range s.width).map fun x => s.lit x y := by
  have hend : y * s.width + s.width ≤ s.pixels.size := by
    rw [hs.size, ← Nat.succ_mul, Nat.mul_comm s.width]
    exact Nat.mul_le_mul_right _ hy
  rw [Nat.succ_mul]
  exact extract_eq_map hend false

/-- the buffer is made of its rows -/
theorem pixels_eq (hs : s.WellFormed) :
    s.pixels.toList = (List.range s.height).flatMap fun y => (List.range s.width).map fun x => s.lit x y := by
  -- the first rows are the first entries, as each row goes on where the one above it ends
  have htake (n : Nat) (hn : n ≤ s.height) : s.pixels.toList.take (n * s.width) =
      (List.range n).flatMap fun y => (List.range s.width).map fun x => s.lit x y := by
    induction n with
    | zero => rw [Nat.zero_mul, List.take_zero, List.range_zero, List.flatMap_nil]
    | succ n ih =>
      have hrow := row_eq hs (y := n) hn
      rw [Array.toList_extract, List.extract_eq_take_drop, Nat.succ_mul, Nat.add_sub_cancel_left] at hrow
      rw [Nat.succ_mul, List.take_add, ih (Nat.le_of_succ_le hn), hrow, List.range_succ, List.flatMap_append,
        List.flatMap_singleton]
  rw [← htake s.height le_rfl, List.take_of_length_le]
  rw [Array.length_toList, hs.size, Nat.mul_comm]

theorem litCount_eq (hs : s.WellFormed) :
    s.litCount = ((range s.width ×ˢ range s.height).filter fun p => s.lit p.1 p.2 = true).card := by
  have hrow (y : Nat) : ((List.range s.width).map fun x => s.lit x y).count true =
      ∑ x ∈ range s.width, if s.lit x y = true then 1 else 0 := by
    rw [← List.filterMap_eq_map, count_filterMap_range]
    simp
  calc s.litCount = s.pixels.toList.count true := Array.count_toList.symm
    _ = ((List.range s.height).map fun y => ((List.range s.width).map fun x => s.lit x y).count true).sum := by
      rw [pixels_eq hs, List.count_flatMap]
      rfl
    _ = ∑ y ∈ range s.height, ∑ x ∈ range s.width, if s.lit x y = true then 1 else 0 := by
      simp only [hrow]
      rfl
    _ = ((range s.width ×ˢ range s.height).filter fun p => s.lit p.1 p.2 = true).card := by
      rw [card_filter, sum_product_right]

/-! ## Pixels -/

theorem pixel_natCast {x y : Nat} (hx : x < s.width) (hy : y < s.height) : s.pixel x y = .ok (s.lit x y) := by
  have hcontains : s.Contains x y := ⟨Int.natCast_nonneg x, by exact_mod_cast hx, Int.natCast_nonneg y,
    by exact_mod_cast hy⟩
  unfold pixel
  rw [if_pos hcontains]
  rfl

theorem pixel_eq_true_iff {x y : Nat} (hx : x < s.width) (hy : y < s.height) :
    s.pixel x y = .ok true ↔ s.lit x y = true := by
  rw [pixel_natCast hx hy, Except.ok.injEq]

theorem Contains.has {x y : Int} (h : s.Contains x y) : s.Has (x.toNat, y.toNat) := by
  obtain ⟨hx, hxw, hy, hyh⟩ := h
  exact ⟨by omega, by omega⟩

/-- setting a pixel changes that pixel and no other -/
theorem lit_setPixel (hs : s.WellFormed) {x y : Int} {on : Bool} (h : s.setPixel x y on = .ok t) {i j : Int}
    (hij : s.Contains i j) :
    t.lit i.toNat j.toNat = if i = x ∧ j = y then on else s.lit i.toNat j.toNat := by
  obtain ⟨hxy, rfl⟩ := setPixel_eq_ok_iff.1 h
  have hlt : j.toNat * s.width + i.toNat < s.pixels.size := by
    rw [hs.size]
    exact hij.has.index_lt
  have hindex : y.toNat * s.width + x.toNat = j.toNat * s.width + i.toNat ↔ i = x ∧ j = y := by
    have hpair : y.toNat * s.width + x.toNat = j.toNat * s.width + i.toNat ↔ (x.toNat, y.toNat) = (i.toNat, j.toNat) :=
      hxy.has.index_eq_iff hij.has
    rw [hpair, Prod.mk.injEq]
    obtain ⟨hx, -, hy, -⟩ := hxy
    obtain ⟨hi, -, hj, -⟩ := hij
    omega
  unfold lit
  rw [Array.getD_eq_getD_getElem?, Array.getD_eq_getD_getElem?, Array.getElem?_setIfInBounds, ← if_congr hindex rfl rfl]
  split_ifs with heq hbound
  · rfl
  · exact absurd (heq ▸ hlt) hbound
  · rfl

/-- the screen with one pixel set, as it is read off -/
theorem pixel_of_setPixel (hs : s.WellFormed) {x y : Int} {on : Bool} (h : s.setPixel x y on = .ok t) (i j : Int) :
    t.pixel i j = if i = x ∧ j = y then .ok on else s.pixel i j := by
  have hshape := setPixel_sameShape h
  have hcontains : t.Contains i j ↔ s.Contains i j := by
    unfold Contains
    rw [hshape.width, hshape.height]
  unfold pixel
  by_cases hij : s.Contains i j
  · rw [if_pos (hcontains.2 hij), if_pos hij, lit_setPixel hs h hij]
    split_ifs <;> rfl
  · have hne : ¬(i = x ∧ j = y) := by
      rintro ⟨rfl, rfl⟩
      exact hij (setPixel_eq_ok_iff.1 h).1
    rw [if_neg (mt hcontains.1 hij), if_neg hij, if_neg hne, hshape.width, hshape.height]

/-! ## The grid -/

/-- a screen of any contents is a grid -/
theorem WellFormed.isGrid (hs : s.WellFormed) : s.IsGrid s.width s.height where
  size := by
    unfold buffer
    rw [Array.size_map, hs.size]
  bits := s.bits_buffer
  refuses := by
    intro x y value hout
    have hset : s.attempt (.set x y value) = .error (.noSuchPixel x y s.width s.height) := if_neg hout
    refine ⟨if_neg hout, hset, ?_⟩
    unfold edit
    rw [hset]
  sets := by
    intro x y value hin
    obtain ⟨t, ht⟩ : ∃ t, s.attempt (.set x y value) = .ok t := ⟨_, if_pos hin⟩
    have hedit : s.edit (.set x y value) = t := by
      unfold edit
      rw [ht]
    rw [hedit]
    exact ⟨ht, setPixel_sameShape ht, pixel_of_setPixel hs ht⟩
  count := by
    rw [litCount_eq hs]
    refine congrArg card (filter_congr fun p hp => ?_)
    rw [mem_product, mem_range, mem_range] at hp
    exact (pixel_eq_true_iff hp.1 hp.2).symm
  text := by
    intro on off
    have hrow (y : Nat) (hy : y ∈ List.range s.height) : s.rowText on off y =
        String.join ((List.range s.width).map fun x : Nat => if s.pixel x y = .ok true then on else off) := by
      unfold rowText
      rw [row_eq hs (List.mem_range.1 hy), List.map_map]
      refine congrArg String.join (List.map_congr_left fun x hx => ?_)
      exact (if_congr (pixel_eq_true_iff (List.mem_range.1 hx) (List.mem_range.1 hy)) rfl rfl).symm
    unfold toText
    rw [List.map_congr_left hrow]

end Screen

/-- **The screen is a grid, whatever is done to it.** A new screen of any width and height can be had unless there are more
pixels than can be numbered. However it is drawn on, set and cleared, at places on it or past its edges, its buffer keeps
a byte for each pixel that is 0 or 1, a pixel past an edge is refused with the screen as it was, setting a pixel changes
that pixel alone, and the count and the text of the screen are those of its pixels. In the buffer drawing is an exclusive
or with 1 at the pixels that a sprite touches. -/
theorem edits_leave_grid :
    (∀ width height : Nat, 0 < width → 0 < height →
      ((∃ s, Screen.create width height = .ok s) ↔ width * height < Screen.indexLimit) ∧
      ∀ s, Screen.create width height = .ok s → ∀ es, (s.edits es).IsGrid width height) ∧
    ∀ (s t : Screen) (e : Edit), s.attempt e = .ok t → t.buffer = s.rewritten s.buffer e := by
  refine ⟨fun width height hwidth hheight => ⟨?_, ?_⟩, fun s t e => Screen.buffer_of_attempt⟩
  · unfold Screen.create
    rw [if_neg (by omega)]
    constructor
    · rintro ⟨s, h⟩
      split_ifs at h with hlarge
      exact_mod_cast not_le.1 hlarge
    · intro hsmall
      exact ⟨_, if_neg (not_le.2 (by exact_mod_cast hsmall))⟩
  · intro s hcreate es
    have hs : s.WellFormed := .of_create hcreate
    have hshape := Screen.edits_sameShape hs es
    have hdark : s = Screen.dark width height := Screen.create_eq_dark hcreate
    have hgrid := (hs.of_sameShape hshape).isGrid
    rw [hshape.width, hshape.height] at hgrid
    subst hdark
    exact hgrid

/-- edits of a screen three pixels wide and two high; the second pixel that is set is not there -/
def smallEdits : List Edit := [.draw comingBack, .set 1 0 (-5), .set 3 0 1, .set 0 1 0]

theorem smallEdits_leave_grid :
    let s := (Screen.dark 3 2).edits smallEdits
    s.IsGrid 3 2 ∧ s.litCount = 3 ∧ s.toText "#" "." = "##.\n..#" ∧ s.edit (.set (-1) 0 1) = s ∧
      (s.edit (.draw cutOff)).buffer = s.rewritten s.buffer (.draw cutOff) := by
  intro s
  have hcreate : Screen.create 3 2 = .ok (Screen.dark 3 2) := rfl
  have hgrid : s.IsGrid 3 2 := (edits_leave_grid.1 3 2 (by decide) (by decide)).2 _ hcreate smallEdits
  obtain ⟨-, -, hsame⟩ := hgrid.refuses (-1) 0 1 (by decide)
  exact ⟨hgrid, by decide +kernel, by decide +kernel, hsame, edits_leave_grid.2 s _ (.draw cutOff) rfl⟩

end Chip8
