/-
Configurations that are accepted. A check that passes says what `Config.Valid` says (`validate_eq_ok`), and the check is
the last thing that reading a document does, so whatever comes out of a document is valid (`valid_of_ofValue`).
-/
import Mathlib.Tactic
import Chip8.Config.Reader
import Chip8.Proofs.Act

namespace Chip8.Config

open Act

theorem lastRefusal_eq_ok {P : Prop} [Decidable P] {e : Error} :
    (if P then throw e else pure () : Except Error Unit) = .ok () ↔ ¬ P := by
  rw [← bind_pure (throw e)]
  exact refusal_eq_ok.trans ⟨fun h => h.1, fun h => ⟨h, rfl⟩⟩

theorem validate_eq_ok (c : Config) : c.validate = .ok () ↔ c.Valid := by
  simp only [validate, refusal_eq_ok, lastRefusal_eq_ok, not_or, not_le, not_lt]
  constructor
  · rintro ⟨hmemory, hprogram, hfont, hrates, hdimensions⟩
    exact ⟨hmemory, hprogram.1, hprogram.2, hfont.1, hfont.2, hrates.1, hrates.2, hdimensions.1, hdimensions.2⟩
  · intro h
    exact ⟨h.memory_pos, ⟨h.program_nonneg, h.program_lt⟩, ⟨h.font_nonneg, h.font_le⟩, ⟨h.cpu_pos, h.timer_pos⟩,
      h.width_pos, h.height_pos⟩

/-- reading a mapping ends with the check -/
theorem valid_of_root {es : List (Value × Value)} {ns ns' : List Notice} {c : Config}
    (h : Reader.root es ns = .ok c ns') : c.Valid := by
  unfold Reader.root at h
  simp only [bind_eq_ok, ofExcept_eq_ok] at h
  obtain ⟨-, ns, -, memorySize, ns, -, programStart, ns, -, fontStart, ns, -, cpuHz, ns, -, timerHz, ns, -, seed, ns, -,
    screen, ns, -, width, ns, -, height, ns, -, quirks, ns, -, dialect, ns, -, ⟨⟩, ns, ⟨hcheck, -⟩, h⟩ := h
  cases h
  exact (validate_eq_ok _).1 hcheck

/-- **What comes out of a document is valid.** -/
theorem valid_of_ofValue {v : Value} {c : Config} {ns : List Notice} (h : ofValue v = (.ok c, ns)) : c.Valid := by
  unfold ofValue at h
  split at h
  · cases h
  · split at h
    · cases h
      exact valid_of_root ‹_›
    · cases h

end Chip8.Config
