/-
Sprites drawn one after the other. A sprite only switches pixels over, and which ones does not depend on what is lit. So
the order of drawing leaves no trace on the screen, and what is drawn twice has not been drawn; whether a sprite collides
does depend on the order, as it tells what was lit before it.

- `Screen.toggled_perm`, `Screen.toggled_reverse`: pixels switched over in any order, and back.
- `Screen.drawAll_eq_toggled`: sprites are the pixels they switch over, one sprite after the other.
- `Screen.collides_twice_iff`: what collides if it is drawn twice.
- `drawings_commute`: any order of any drawings.
-/
import Chip8.Proofs.Sprites

namespace Chip8

open Finset

structure Drawing where
  x : Int
  y : Int
  rows : List Int
  clip : Bool
  deriving DecidableEq, Repr

namespace Screen

def drawn (s : Screen) (d : Drawing) : Screen × Bool := s.draw d.x d.y d.rows d.clip

def drawAll (s : Screen) (ds : List Drawing) : Screen := ds.foldl (fun s d => (s.drawn d).1) s

/-- some bit of a sprite falls on the screen: one that is set, and that is not cut off -/
def Lands (s : Screen) (d : Drawing) : Prop :=
  ∃ r < d.rows.length, ∃ c < 8, (d.rows.getD r 0).testBit (7 - c) ∧
    (d.clip = true → d.x % s.width + c < s.width ∧ d.y % s.height + r < s.height)

instance (s : Screen) (d : Drawing) : Decidable (s.Lands d) := inferInstanceAs (Decidable (∃ r < _, _))

variable {s t : Screen}

/-! ## Pixels in any order -/

theorem toggle_comm (s : Screen) (c d : Nat × Nat) : (s.toggle c).toggle d = (s.toggle d).toggle c := by
  have hpixels : ((s.toggle c).toggle d).pixels = ((s.toggle d).toggle c).pixels := by
    refine Array.ext_getElem? fun i => ?_
    simp only [getElem?_toggle, (s.toggle_sameShape _).width]
    split_ifs <;> rfl
  exact congrArg (Screen.mk s.width s.height) hpixels

theorem toggle_toggle (s : Screen) (c : Nat × Nat) : (s.toggle c).toggle c = s := by
  have hpixels : ((s.toggle c).toggle c).pixels = s.pixels := by
    refine Array.ext_getElem? fun i => ?_
    simp only [getElem?_toggle, (s.toggle_sameShape _).width]
    split_ifs
    · cases s.pixels[i]? <;> simp
    · rfl
  exact congrArg (Screen.mk s.width s.height) hpixels

/-- the order in which pixels are switched over does not matter -/
theorem toggled_perm {cs ds : List (Nat × Nat)} (h : cs.Perm ds) (s : Screen) :
    cs.foldl toggle s = ds.foldl toggle s :=
  h.foldl_eq' (fun c _ d _ s => s.toggle_comm c d) s

/-- pixels switched back, the last one first -/
theorem toggled_reverse (s : Screen) (cs : List (Nat × Nat)) : cs.reverse.foldl toggle (cs.foldl toggle s) = s := by
  induction cs generalizing s with
  | nil => rfl
  | cons c cs ih => rw [List.foldl_cons, List.reverse_cons, List.foldl_append, ih, List.foldl_cons, toggle_toggle,
      List.foldl_nil]

theorem toggleAll_fst (s : Screen) (collision : Bool) (cs : List (Nat × Nat)) :
    (toggleAll (s, collision) cs).1 = cs.foldl toggle s := by
  induction cs generalizing s collision with
  | nil => rfl
  | cons c cs ih => rw [toggleAll_cons, ih, List.foldl_cons]

/-! ## Sprites in any order -/

theorem drawn_sameShape (s : Screen) (d : Drawing) : SameShape s (s.drawn d).1 :=
  s.draw_sameShape d.x d.y d.rows d.clip

/-- the pixels that a sprite switches over -/
def touched (s : Screen) (d : Drawing) : List (Nat × Nat) :=
  s.cells d.clip (d.x % s.width).toNat (d.y % s.height).toNat d.rows

theorem drawn_eq_toggled (s : Screen) (d : Drawing) : (s.drawn d).1 = (s.touched d).foldl toggle s :=
  s.toggleAll_fst false (s.touched d)

theorem cells_of_sameShape (h : SameShape s t) (clip : Bool) (x y : Nat) (rows : List Int) :
    t.cells clip x y rows = s.cells clip x y rows := by
  have hplace (x y : Nat) : t.place clip x y = s.place clip x y := by
    unfold place
    rw [h.width, h.height]
  induction rows generalizing y with
  | nil => rfl
  | cons row rows ih =>
    unfold cells rowCells
    simp only [hplace, ih]

/-- what is lit does not decide what a sprite touches -/
theorem touched_of_sameShape (h : SameShape s t) : t.touched = s.touched := by
  funext d
  unfold touched
  rw [cells_of_sameShape h, h.width, h.height]

theorem drawAll_eq_toggled (s : Screen) (ds : List Drawing) : s.drawAll ds = (ds.flatMap s.touched).foldl toggle s := by
  induction ds generalizing s with
  | nil => rfl
  | cons d ds ih =>
    calc s.drawAll (d :: ds) = (s.drawn d).1.drawAll ds := rfl
      _ = (ds.flatMap s.touched).foldl toggle (s.drawn d).1 := by rw [ih, touched_of_sameShape (s.drawn_sameShape d)]
      _ = ((d :: ds).flatMap s.touched).foldl toggle s := by rw [drawn_eq_toggled, List.flatMap_cons, List.foldl_append]

theorem drawAll_sameShape (s : Screen) (ds : List Drawing) : SameShape s (s.drawAll ds) := by
  induction ds generalizing s with
  | nil => exact .refl s
  | cons d ds ih => exact (s.drawn_sameShape d).trans (ih _)

theorem drawAll_perm {ds es : List Drawing} (h : ds.Perm es) (s : Screen) : s.drawAll ds = s.drawAll es := by
  rw [drawAll_eq_toggled, drawAll_eq_toggled]
  exact toggled_perm (h.flatMap_right s.touched) s

/-- sprites that are all drawn a second time, in any order, are gone -/
theorem drawAll_drawAll {ds es : List Drawing} (h : ds.Perm es) (s : Screen) : (s.drawAll ds).drawAll es = s := by
  -- undoing works backwards, and the second round may just as well go that way
  have hcells : (es.flatMap s.touched).Perm (ds.flatMap s.touched).reverse :=
    (h.symm.flatMap_right s.touched).trans (List.reverse_perm _).symm
  rw [drawAll_eq_toggled _ es, touched_of_sameShape (s.drawAll_sameShape ds), drawAll_eq_toggled s ds]
  exact (toggled_perm hcells _).trans (s.toggled_reverse _)

/-! ## A sprite drawn twice -/

theorem hits_of_sameShape (h : SameShape s t) (d : Drawing) (p q : Nat) :
    t.hits d.clip d.x d.y d.rows p q = s.hits d.clip d.x d.y d.rows p q := by
  have hcovers (x y : Int) : t.Covers d.clip x y p q ↔ s.Covers d.clip x y p q := by
    unfold Covers
    rw [h.width, h.height]
  unfold hits
  rw [h.width, h.height]
  exact congrArg card (filter_congr fun rc _ => and_congr_right fun _ => hcovers _ _)

/-- every place falls on a pixel, unless it is cut off -/
theorem exists_covers (hs : s.WellFormed) (clip : Bool) (x y : Int) (hx : 0 ≤ x) (hy : 0 ≤ y) :
    (∃ p < s.width, ∃ q < s.height, s.Covers clip x y p q) ↔ (clip = true → x < s.width ∧ y < s.height) := by
  cases clip with
  | true =>
    have hcovers (p q : Nat) : s.Covers true x y p q ↔ x = p ∧ y = q := by simp [Covers]
    simp only [hcovers, forall_const]
    constructor
    · rintro ⟨p, hp, q, hq, rfl, rfl⟩
      exact ⟨by exact_mod_cast hp, by exact_mod_cast hq⟩
    · rintro ⟨hxw, hyh⟩
      exact ⟨x.toNat, by omega, y.toNat, by omega, by omega, by omega⟩
  | false =>
    have hresidue {n : Nat} (hn : 0 < n) (a : Int) : ∃ k < n, a ≡ k [ZMOD n] := by
      have hpos : (0 : Int) < n := by exact_mod_cast hn
      have hnonneg := Int.emod_nonneg a hpos.ne'
      have hlt := Int.emod_lt_of_pos a hpos
      refine ⟨(a % n).toNat, by omega, ?_⟩
      rw [Int.toNat_of_nonneg hnonneg]
      exact (Int.mod_modEq a n).symm
    obtain ⟨p, hp, hxp⟩ := hresidue hs.width_pos x
    obtain ⟨q, hq, hyq⟩ := hresidue hs.height_pos y
    exact iff_of_true ⟨p, hp, q, hq, hxp, hyq⟩ fun hclip => absurd hclip Bool.false_ne_true

/-- a sprite lands if and only if it switches over some pixel -/
theorem lands_iff (hs : s.WellFormed) (d : Drawing) :
    s.Lands d ↔ ∃ p < s.width, ∃ q < s.height, 0 < s.hits d.clip d.x d.y d.rows p q := by
  have hx : 0 ≤ d.x % s.width := Int.emod_nonneg _ (by exact_mod_cast hs.width_pos.ne')
  have hy : 0 ≤ d.y % s.height := Int.emod_nonneg _ (by exact_mod_cast hs.height_pos.ne')
  have hplace (r c : Nat) := exists_covers hs d.clip (d.x % s.width + c) (d.y % s.height + r) (by omega) (by omega)
  have hhits (p q : Nat) : 0 < s.hits d.clip d.x d.y d.rows p q ↔
      ∃ r < d.rows.length, ∃ c < 8, (d.rows.getD r 0).testBit (7 - c) ∧
        s.Covers d.clip (d.x % s.width + c) (d.y % s.height + r) p q := by
    simp only [hits, card_pos, Finset.Nonempty, mem_filter, mem_product, mem_range, Prod.exists, and_assoc]
    grind
  unfold Lands
  simp only [hhits, ← hplace]
  grind

/-- of a sprite drawn twice one drawing collides if any bit of it falls on the screen: the second, if not the first -/
theorem collides_twice_iff (hs : s.WellFormed) (d : Drawing) :
    (s.drawn d).2 = true ∨ ((s.drawn d).1.drawn d).2 = true ↔ s.Lands d := by
  have hshape := s.drawn_sameShape d
  have hfirst := s.collision_draw hs d.x d.y d.rows d.clip
  have hsecond := (s.drawn d).1.collision_draw (hs.of_sameShape hshape) d.x d.y d.rows d.clip
  -- a single bit on a dark pixel lights it for the second drawing; every other pixel that is hit tells at once
  have hpixel {p q : Nat} (hp : p < s.width) (hq : q < s.height) :
      2 ≤ (s.lit p q).toNat + s.hits d.clip d.x d.y d.rows p q ∨
        2 ≤ ((s.drawn d).1.lit p q).toNat + (s.drawn d).1.hits d.clip d.x d.y d.rows p q ↔
      0 < s.hits d.clip d.x d.y d.rows p q := by
    have hlit := s.lit_draw hs d.x d.y d.rows d.clip hp hq
    have hle := Bool.toNat_le (s.lit p q)
    rw [hits_of_sameShape hshape]
    unfold drawn
    omega
  rw [lands_iff hs]
  unfold drawn at *
  rw [hfirst, hsecond]
  unfold Overdrawn
  rw [hshape.width, hshape.height]
  grind

end Screen

/-- **Sprites may be drawn in any order, and drawn twice they are gone.** On a screen of any size and with anything on it,
drawings of any kind, cut off or not, leave the same screen in whatever order they are made, and the screen they were made
on if all of them are made again, in whatever order. Whether one of them collides does depend on what is lit; but of a
sprite drawn twice in a row one drawing collides if and only if a set bit of it falls on the screen. -/
theorem drawings_commute :
    (∀ (s : Screen) (ds es : List Drawing), ds.Perm es →
      s.drawAll ds = s.drawAll es ∧ (s.drawAll ds).drawAll es = s) ∧
    ∀ (s : Screen) (d : Drawing), s.WellFormed →
      ((s.drawn d).2 = true ∨ ((s.drawn d).1.drawn d).2 = true ↔ s.Lands d) :=
  ⟨fun s _ _ h => ⟨s.drawAll_perm h, s.drawAll_drawAll h⟩, fun _ d hs => Screen.collides_twice_iff hs d⟩

/-- a row of eight that is cut off behind the fourth pixel -/
def cutOff : Drawing := { x := 4, y := 1, rows := [0xFF], clip := true }

/-- a row of eight that comes back, and a second row of which one bit is set -/
def comingBack : Drawing := { x := -4, y := 1, rows := [0xFF, 0x01], clip := false }

/-- the two meet on the same pixels: which of them collides is a question of order, what is lit in the end is not -/
theorem meeting_drawings_commute :
    let s := Screen.dark 8 2
    (s.drawAll [cutOff, comingBack]).drawAll [comingBack, cutOff] = s ∧
      s.drawAll [cutOff, comingBack] = s.drawAll [comingBack, cutOff] ∧ s.drawAll [cutOff, comingBack] ≠ s ∧
      (s.drawn cutOff).2 = false ∧ ((s.drawn comingBack).1.drawn cutOff).2 = true ∧
      s.Lands cutOff ∧ ((s.drawn cutOff).2 = true ∨ ((s.drawn cutOff).1.drawn cutOff).2 = true) := by
  intro s
  have hcreate : Screen.create 8 2 = .ok s := rfl
  have hs : s.WellFormed := .of_create hcreate
  have hperm : [cutOff, comingBack].Perm [comingBack, cutOff] := .swap _ _ _
  obtain ⟨hcommute, hcancel⟩ := drawings_commute.1 s _ _ hperm
  have hlands : s.Lands cutOff := by decide +kernel
  refine ⟨hcancel, hcommute, ?_, ?_, ?_, hlands, (drawings_commute.2 s cutOff hs).2 hlands⟩
  all_goals decide +kernel

end Chip8
