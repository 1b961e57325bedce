/-
Actions that may stop with an error and keep the state they have reached by then: instructions, operations on machines
and on debuggers, reading steps. `left a s` is the state that `a` leaves behind in `s`, whether it fails or not,
`Keeps P a` says that `a` leads from states with `P` to states with `P` only, and `Agree R` that two results are the same
and leave states related by `R`.

- `Keeps.bind` and its neighbours: what the parts of an action keep, the whole keeps.
- `Agree.bind`: the same for two actions side by side.
- `bind_eq_ok`, `bind_eq_error`: how an action made of two parts succeeds, and how it fails; `ok_of_bind`,
  `mapError_eq_ok` and `refusal_eq_ok` are about plain results.
-/
import Chip8.State

namespace Chip8

namespace Act

variable {ε σ α β : Type}

/-! ## How actions run -/

theorem bind_apply (a : EStateM ε σ α) (k : α → EStateM ε σ β) (s : σ) :
    (a >>= k) s = match a s with
      | .ok r t => k r t
      | .error e t => .error e t := rfl

theorem pure_apply (r : α) (s : σ) : (pure r : EStateM ε σ α) s = .ok r s := rfl

theorem modify_apply (f : σ → σ) (s : σ) : (modify f : EStateM ε σ PUnit) s = .ok ⟨⟩ (f s) := rfl

theorem get_apply (s : σ) : (get : EStateM ε σ σ) s = .ok s s := rfl

theorem set_apply (s t : σ) : (set t : EStateM ε σ PUnit) s = .ok ⟨⟩ t := rfl

theorem ofExcept_apply (r : Except ε α) (s : σ) :
    (ofExcept r : EStateM ε σ α) s = match r with
      | .ok a => .ok a s
      | .error e => .error e s := by
  cases r <;> rfl

theorem ofExcept_eq_ok {r : Except ε α} {s t : σ} {a : α} :
    (ofExcept r : EStateM ε σ α) s = .ok a t ↔ r = .ok a ∧ t = s := by
  rw [ofExcept_apply]
  cases r with
  | ok b => simp [eq_comm]
  | error e => simp

/-- a sequence of two actions succeeds if both do, one after the other -/
theorem bind_eq_ok {a : EStateM ε σ α} {k : α → EStateM ε σ β} {s u : σ} {r : β} :
    (a >>= k) s = .ok r u ↔ ∃ x t, a s = .ok x t ∧ k x t = .ok r u := by
  rw [bind_apply]
  cases h : a s with
  | ok x t =>
    constructor
    · intro hk
      exact ⟨x, t, rfl, hk⟩
    · rintro ⟨x', t', hx, hk⟩
      cases hx
      exact hk
  | error e t => simp

/-- a sequence of two actions fails if the first does, or the second after it -/
theorem bind_eq_error {a : EStateM ε σ α} {k : α → EStateM ε σ β} {s u : σ} {e : ε} :
    (a >>= k) s = .error e u ↔ a s = .error e u ∨ ∃ x t, a s = .ok x t ∧ k x t = .error e u := by
  rw [bind_apply]
  cases h : a s with
  | ok x t =>
    constructor
    · intro hk
      exact .inr ⟨x, t, rfl, hk⟩
    · rintro (hs | ⟨x', t', hx, hk⟩)
      · cases hs
      · cases hx
        exact hk
  | error e' t => simp

theorem ok_of_bind {r : Except ε α} {k : α → Except ε β} {y : β} (h : (r >>= k) = .ok y) :
    ∃ x, r = .ok x ∧ k x = .ok y := by
  cases r with
  | error e => cases h
  | ok x => exact ⟨x, rfl, h⟩

theorem ok_of_mapError {ε' : Type} {r : Except ε α} {f : ε → ε'} {x : α} (h : r.mapError f = .ok x) : r = .ok x := by
  cases r with
  | error e => cases h
  | ok y =>
    cases h
    rfl

theorem mapError_eq_ok {ε' : Type} {r : Except ε α} {f : ε → ε'} {x : α} : r.mapError f = .ok x ↔ r = .ok x := by
  constructor
  · exact ok_of_mapError
  · rintro rfl
    rfl

/-- what comes after a refusal is reached if the reason for refusing is not there -/
theorem refusal_eq_ok {P : Prop} [Decidable P] {e : ε} {k : β → Except ε α} {r : Except ε α} {x : α} :
    (if P then throw e >>= k else r) = .ok x ↔ ¬ P ∧ r = .ok x := by
  by_cases h : P
  · rw [if_pos h]
    constructor
    · intro hk
      cases hk
    · rintro ⟨hn, -⟩
      exact absurd h hn
  · rw [if_neg h]
    exact ⟨fun hr => ⟨h, hr⟩, fun hr => hr.2⟩

/-! ## What an action leaves behind -/

/-- the state that an action leaves, whether it fails or not -/
def left (a : EStateM ε σ α) (s : σ) : σ :=
  match a s with
  | .ok _ t => t
  | .error _ t => t

theorem left_of_ok {a : EStateM ε σ α} {s t : σ} {r : α} (h : a s = .ok r t) : left a s = t := by
  rw [left, h]

theorem left_of_error {a : EStateM ε σ α} {s t : σ} {e : ε} (h : a s = .error e t) : left a s = t := by
  rw [left, h]

/-- the action leads from states with the property to states with the property, whether it fails or not -/
def Keeps (P : σ → Prop) (a : EStateM ε σ α) : Prop := ∀ s, P s → P (left a s)

variable {P : σ → Prop}

theorem Keeps.ok {a : EStateM ε σ α} (h : Keeps P a) {s t : σ} {r : α} (hs : P s) (hr : a s = .ok r t) : P t := by
  have := h s hs
  rwa [left_of_ok hr] at this

theorem Keeps.error {a : EStateM ε σ α} (h : Keeps P a) {s t : σ} {e : ε} (hs : P s) (hr : a s = .error e t) :
    P t := by
  have := h s hs
  rwa [left_of_error hr] at this

theorem Keeps.pure (r : α) : Keeps P (pure r : EStateM ε σ α) := fun _ hs => hs

theorem Keeps.throw (e : ε) : Keeps P (throw e : EStateM ε σ α) := fun _ hs => hs

theorem Keeps.get : Keeps P (get : EStateM ε σ σ) := fun _ hs => hs

theorem Keeps.modify {f : σ → σ} (h : ∀ s, P s → P (f s)) : Keeps P (modify f : EStateM ε σ PUnit) := h

theorem Keeps.ofExcept (r : Except ε α) : Keeps P (ofExcept r : EStateM ε σ α) := by
  intro s hs
  cases r <;> exact hs

theorem Keeps.bind {a : EStateM ε σ α} {k : α → EStateM ε σ β} (ha : Keeps P a) (hk : ∀ r, Keeps P (k r)) :
    Keeps P (a >>= k) := by
  intro s hs
  unfold left
  rw [bind_apply]
  cases h : a s with
  | ok r t => exact hk r t (ha.ok hs h)
  | error e t => exact ha.error hs h

/-- what comes after reading the state need only keep the property of a state that has it -/
theorem Keeps.get_bind {k : σ → EStateM ε σ β} (hk : ∀ s, P s → P (left (k s) s)) : Keeps P (do k (← MonadState.get)) :=
  hk

/-! ## Results that agree -/

/-- both succeed with one result or fail with one error, and the states they leave are related -/
inductive Agree (R : σ → σ → Prop) : EStateM.Result ε σ α → EStateM.Result ε σ α → Prop
  | ok (r : α) {s t : σ} (h : R s t) : Agree R (.ok r s) (.ok r t)
  | error (e : ε) {s t : σ} (h : R s t) : Agree R (.error e s) (.error e t)

variable {R : σ → σ → Prop} {a b : EStateM ε σ α} {s t : σ}

theorem Agree.refl (r : EStateM.Result ε σ α) : Agree Eq r r := by
  cases r with
  | ok r s => exact .ok r rfl
  | error e s => exact .error e rfl

theorem Agree.mono {R' : σ → σ → Prop} {r r' : EStateM.Result ε σ α} (h : Agree R r r') (hR : ∀ {s t}, R s t → R' s t) :
    Agree R' r r' := by
  cases h with
  | ok r h => exact .ok r (hR h)
  | error e h => exact .error e (hR h)

theorem Agree.left (h : Agree R (a s) (b t)) : R (left a s) (left b t) := by
  unfold Act.left
  generalize a s = result, b t = result' at h
  cases h with
  | ok r h => exact h
  | error e h => exact h

/-- what the parts of two actions agree on, the whole of them agree on -/
theorem Agree.bind {k l : α → EStateM ε σ β} (h : Agree R (a s) (b t))
    (hk : ∀ r s' t', a s = .ok r s' → R s' t' → Agree R (k r s') (l r t')) :
    Agree R ((a >>= k) s) ((b >>= l) t) := by
  rw [bind_apply, bind_apply]
  generalize hs : a s = result, b t = result' at h
  cases h with
  | ok r h => exact hk r _ _ hs h
  | error e h => exact .error e h

end Act

end Chip8
