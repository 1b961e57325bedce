/-
Loading an image makes a machine forget what it has been through. Whatever was done with two machines of one
configuration, once the same image has been loaded into both they are alike, and they stay alike as long as nothing is
carried out that depends on chance.

- `Machine.agree_load`: loading.
- `load_forgets`: loading, and everything after it.
-/
import Chip8.Proofs.Chance
import Chip8.Proofs.PowerOn
import Chip8.Proofs.Stopping

namespace Chip8

open Act

namespace Machine

variable {κ : Type} [Credit κ] {m n : Machine κ}

/-- letting time pass answers with the number of the instructions that it carries out -/
theorem length_carried_of_advance {elapsed : κ} {count : Nat} {t : Machine κ}
    (h : advance elapsed m = .ok count t) : ((Action.advance elapsed).carried m).length = count := by
  obtain ⟨hbeats, rfl⟩ := beats_of_advance h
  exact State.length_carried hbeats

variable {c : Config}

/-- loading an image into two machines of one configuration -/
theorem agree_load (hc : c.Valid) (hm : m.Within c) (hn : n.Within c) (image : Image) :
    Agree Alike (load image m) (load image n) := by
  have hmemory : (State.fresh c n.state.rng).memory = (State.fresh c m.state.rng).memory := rfl
  rw [load_apply hc hm, load_apply hc hn, hmemory]
  cases image.load (State.fresh c m.state.rng).memory c.programStart with
  | ok r => exact .ok _ ⟨rfl, ⟨rfl, rfl, rfl, rfl⟩, rfl⟩
  | error e => exact .error (Error.load e) ⟨rfl, ⟨rfl, rfl, rfl, rfl⟩, rfl⟩

end Machine

/-- **Loading an image leaves nothing of the past.** Two machines are built from a configuration that was accepted, each
with a random generator of its own, and anything is done with each of them in any order. Then loading an image has the
same answer or the same error on both, and leaves them equal in processor, count, memory, screen and credit. Whatever is
done with both after that, instructions, timer beats, keys and time that passes, has the same answers and errors on both
and leaves them equal in all this after each action, unless an instruction is carried out that depends on chance. -/
theorem load_forgets {κ : Type} [Credit κ] {v : Value} {c : Config} {ns : List Notice} {m : Machine κ}
    (hv : Config.ofValue v = (.ok c, ns)) (hm : Machine.create c = .ok m) (rng₁ rng₂ : Twister)
    (ops₁ ops₂ : List (Session.Op κ)) (image : Image) {m₁ m₂ : Machine κ}
    (h₁ : m₁ = (Session.after ops₁ (.start (m.withRng rng₁))).machine)
    (h₂ : m₂ = (Session.after ops₂ (.start (m.withRng rng₂))).machine) :
    Agree Machine.Alike (Machine.load image m₁) (Machine.load image m₂) ∧
    ∀ as : List (Machine.Action κ),
      (∀ ins ∈ (left (Machine.load image) m₁).carried as, ins.dependsOnChance = false) →
      List.Forall₂ (Agree Machine.Alike) ((left (Machine.load image) m₁).history as)
        ((left (Machine.load image) m₂).history as) := by
  have hc := Config.valid_of_ofValue hv
  have hload : Agree Machine.Alike (Machine.load image m₁) (Machine.load image m₂) := by
    rw [h₁, h₂]
    exact Machine.agree_load hc (Session.machine_within hv hm rng₁ ops₁) (Session.machine_within hv hm rng₂ ops₂)
      image
  exact ⟨hload, fun as hquiet => Machine.agree_history hload.left as hquiet⟩

/-- V0 is set; after it memory ends -/
def Image.oneLoad : Image := .raw [0x60, 0x07]

/-- an instruction, a key, a beat of the timers, and time that passes until the instruction after it fails -/
def Machine.Action.sample : List (Machine.Action Rat) := [.step, .setKey 1 true, .tick, .advance (1 / 100), .step]

/-- a machine that has carried out an instruction, and one that has had a key pressed and a pixel lit -/
theorem small_load_forgets :
    ∃ m₁ m₂ : Machine Rat,
      m₁ = (Session.after [.step, .advance 1] (.start (Machine.small.withRng (.ofSeed 1)))).machine ∧
      m₂ = (Session.after [.setKey 3 true, .setPixel 0 0 true] (.start (Machine.small.withRng (.ofSeed 2)))).machine ∧
      ¬ m₁.state.Alike m₂.state ∧
      Agree Machine.Alike (Machine.load .oneLoad m₁) (Machine.load .oneLoad m₂) ∧
      List.Forall₂ (Agree Machine.Alike) ((left (Machine.load .oneLoad) m₁).history Machine.Action.sample)
        ((left (Machine.load .oneLoad) m₂).history Machine.Action.sample) := by
  have hv : Config.ofValue Config.smallDocument = (.ok .small, []) := rfl
  obtain ⟨hload, hafter⟩ := load_forgets hv Machine.create_small (.ofSeed 1) (.ofSeed 2) [.step, .advance 1]
    [.setKey 3 true, .setPixel 0 0 true] .oneLoad rfl rfl
  refine ⟨_, _, rfl, rfl, fun hsame => ?_, hload, hafter _ ?_⟩
  · exact absurd hsame.cpu (by decide +kernel)
  · decide +kernel

end Chip8
