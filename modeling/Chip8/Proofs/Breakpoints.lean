/-
The list of breakpoints. Adding a condition refuses one that is on the list; exchanging a condition for another does
not look. So an exchange can put a condition on the list twice, and then taking it off once leaves it there. Nothing
else can: as long as no exchange brings in what another entry says already, no condition is on the list twice, and one
that is taken off is gone until it is asked for again.

- `Breakpoint.nodup_update_iff`: when an exchange keeps the conditions apart.
- `Session.breakpoints_perform`: what the operations of a session do to the list, and that no others touch it.
- `Debugger.exists_restsFor`: a run that ends at a breakpoint ends because of one on the list.
- `breakpoints_distinct`: whole sessions; `exchange_doubles_breakpoint` is a session in which a condition stays.
-/
import Chip8.Proofs.Stopping

namespace Chip8

open Act

/-! ## Lists -/

namespace Breakpoint

variable {bs : List Breakpoint} {b c old new : Breakpoint}

theorem mem_add : c ∈ add bs b ↔ c ∈ bs ∨ c = b := by
  unfold add
  split_ifs with hb
  · constructor
    · exact .inl
    · rintro (hc | rfl)
      · exact hc
      · exact hb
  · simp

theorem nodup_add (h : bs.Nodup) (b : Breakpoint) : (add bs b).Nodup := by
  unfold add
  split_ifs with hb
  · exact h
  · rw [(List.perm_append_singleton b bs).nodup_iff]
    exact h.cons hb

theorem update_of_not_mem (h : old ∉ bs) (new : Breakpoint) : update bs old new = bs := by
  induction bs with
  | nil => rfl
  | cons b bs ih =>
    rw [List.mem_cons, not_or] at h
    rw [update, if_neg (Ne.symm h.1), ih h.2]

/-- an exchange puts the new condition in the place of the old one; up to the order, in front of all the others -/
theorem update_perm (h : old ∈ bs) (new : Breakpoint) : (update bs old new).Perm (new :: bs.erase old) := by
  induction bs with
  | nil => exact absurd h List.not_mem_nil
  | cons b bs ih =>
    rw [update]
    by_cases hb : b = old
    · rw [if_pos hb, hb, List.erase_cons_head]
    · have hrest : old ∈ bs := (List.mem_cons.1 h).resolve_left (Ne.symm hb)
      rw [if_neg hb, List.erase_cons_tail (by simpa using hb)]
      exact ((ih hrest).cons b).trans (List.Perm.swap new b _)

/-- a list of different conditions stays one unless the new condition is held by an entry that is not exchanged -/
theorem nodup_update_iff (h : bs.Nodup) : (update bs old new).Nodup ↔ ¬ (old ∈ bs ∧ new ∈ bs ∧ new ≠ old) := by
  by_cases hold : old ∈ bs
  · rw [(update_perm hold new).nodup_iff, List.nodup_cons, h.mem_erase_iff]
    have herase := h.erase old
    tauto
  · rw [update_of_not_mem hold]
    tauto

theorem mem_update (h : c ∈ update bs old new) : c ∈ bs ∨ c = new := by
  by_cases hold : old ∈ bs
  · rcases List.mem_cons.1 ((update_perm hold new).mem_iff.1 h) with hc | hc
    · exact .inr hc
    · exact .inl (List.mem_of_mem_erase hc)
  · rw [update_of_not_mem hold] at h
    exact .inl h

/-- a condition that an exchange has doubled is on the list even when it has been taken off -/
theorem mem_remove_update (hold : old ∈ bs) (hnew : new ∈ bs) (hne : new ≠ old) :
    new ∈ remove (update bs old new) new := by
  have hperm := (update_perm hold new).erase new
  rw [List.erase_cons_head] at hperm
  exact hperm.mem_iff.2 ((List.mem_erase_of_ne hne).2 hnew)

end Breakpoint

/-! ## Runs -/

namespace Debugger

variable {κ : Type}

/-- the breakpoint is a reason for a run to end where it has ended: its address is the one there, its register has its
value there, or the instruction just carried out has changed its register -/
def Stop.RestsFor (stop : Stop κ) (b : Breakpoint) : Prop :=
  b.AsksAddress stop.debugger.cpu ∨ b.AsksValue stop.debugger.cpu ∨
    ∃ (m : Machine κ) (ins : Instruction), Machine.step m = .ok ins stop.debugger.machine ∧
      b.AsksChange m.state.cpu stop.debugger.cpu

/-- a run leaves the breakpoints as they are, and if it ends at one, that one is on the list. The induction is on the
instructions that may still be carried out -/
theorem exists_restsFor {limit stopDuring : Option Nat} {fuel k : Nat} {d : Debugger κ} {stop : Stop κ}
    (hrun : runFrom limit stopDuring fuel k d = some stop) :
    stop.debugger.breakpoints = d.breakpoints ∧
      (stop.reason = .breakpoint → ∃ b ∈ d.breakpoints, stop.RestsFor b) := by
  induction fuel generalizing k d with
  | zero => cases hrun
  | succ fuel ih =>
    rcases runFrom_cases hrun with
      ⟨-, rfl⟩ | ⟨-, haddress, rfl⟩ | ⟨-, -, ⟨f, after, hstep, -, rfl⟩ | ⟨f, after, hstep, -, rfl⟩ |
        ⟨ins, after, hstep, hok⟩⟩
    · exact ⟨rfl, nofun⟩
    · refine ⟨rfl, fun _ => ?_⟩
      obtain ⟨b, hb, hasks⟩ := breaksAt_iff.1 haddress.2
      exact ⟨b, hb, .inl hasks⟩
    · exact ⟨(machine_of_step_error hstep).2, nofun⟩
    · exact ⟨(machine_of_step_error hstep).2, nofun⟩
    · obtain ⟨hmachine, hkept, -⟩ := machine_of_step_ok hstep
      rcases hok with ⟨hregister, rfl⟩ | ⟨-, -, rfl⟩ | ⟨-, -, hrest⟩
      · refine ⟨hkept, fun _ => ?_⟩
        obtain ⟨b, hb, hasks⟩ := breaksAfter_iff.1 hregister
        rw [hkept] at hb
        rcases hasks with hvalue | hchange
        · exact ⟨b, hb, .inr (.inl hvalue)⟩
        · exact ⟨b, hb, .inr (.inr ⟨d.machine, ins, hmachine, hchange⟩)⟩
      · exact ⟨hkept, nofun⟩
      · obtain ⟨hsame, hreason⟩ := ih hrest
        rw [hkept] at hsame hreason
        exact ⟨hsame, hreason⟩

end Debugger

/-! ## Sessions -/

namespace Session

variable {κ : Type} {bs : List Breakpoint} {b : Breakpoint}

namespace Op

/-- what an operation makes of the list of breakpoints -/
def edit (bs : List Breakpoint) : Op κ → List Breakpoint
  | .addBreakpoint b => Breakpoint.add bs b
  | .updateBreakpoint old new => Breakpoint.update bs old new
  | .removeBreakpoint b => Breakpoint.remove bs b
  | _ => bs

/-- the operation exchanges a condition on the list for one that another entry holds already -/
def Doubles (bs : List Breakpoint) : Op κ → Prop
  | .updateBreakpoint old new => old ∈ bs ∧ new ∈ bs ∧ new ≠ old
  | _ => False

/-- the operation asks for the condition to be on the list -/
def Brings (b : Breakpoint) : Op κ → Prop
  | .addBreakpoint new => new = b
  | .updateBreakpoint _ new => new = b
  | _ => False

/-- a list of different conditions stays one unless the operation doubles one of them -/
theorem nodup_edit_iff (h : bs.Nodup) (op : Op κ) : (op.edit bs).Nodup ↔ ¬ op.Doubles bs := by
  cases op with
  | addBreakpoint b => exact iff_of_true (Breakpoint.nodup_add h b) not_false
  | updateBreakpoint old new => exact Breakpoint.nodup_update_iff h
  | removeBreakpoint b => exact iff_of_true (h.erase b) not_false
  | _ => exact iff_of_true h not_false

/-- a condition is not on the list unless it was or the operation asks for it -/
theorem mem_edit {op : Op κ} (h : b ∈ op.edit bs) : b ∈ bs ∨ op.Brings b := by
  cases op with
  | addBreakpoint new => exact (Breakpoint.mem_add.1 h).imp_right Eq.symm
  | updateBreakpoint old new => exact (Breakpoint.mem_update h).imp_right Eq.symm
  | removeBreakpoint c => exact .inl (List.mem_of_mem_erase h)
  | _ => exact .inl h

end Op

variable [Credit κ] {s : Session κ} {ops : List (Op κ)}

/-- of all that is done in a session, only the three edits touch the list -/
theorem breakpoints_perform (s : Session κ) (op : Op κ) :
    (s.perform op).debugger.breakpoints = op.edit s.debugger.breakpoints := by
  cases op with
  | setPixel x y on =>
    simp only [perform]
    cases s.machine.state.screen.setPixel x y on <;> rfl
  | debugStep =>
    simp only [perform, left]
    cases hstep : s.debugger.step with
    | ok ins after => exact (Debugger.machine_of_step_ok hstep).2.1
    | error f after => exact (Debugger.machine_of_step_error hstep).2
  | run limit stopDuring fuel =>
    simp only [perform]
    cases hrun : s.debugger.run limit stopDuring fuel with
    | some stop => exact (Debugger.exists_restsFor hrun).1
    | none => rfl
  | restore slot =>
    simp only [perform]
    cases s.saved[slot]? <;> rfl
  | _ => rfl

/-- no operation, one after the other, doubles a condition on the list that it finds -/
def NeverDoubles (s : Session κ) : List (Op κ) → Prop
  | [] => True
  | op :: ops => ¬ op.Doubles s.debugger.breakpoints ∧ (s.perform op).NeverDoubles ops

theorem nodup_after (hs : s.debugger.breakpoints.Nodup) (h : s.NeverDoubles ops) :
    (after ops s).debugger.breakpoints.Nodup := by
  induction ops generalizing s with
  | nil => exact hs
  | cons op ops ih =>
    obtain ⟨hop, hrest⟩ := h
    refine ih ?_ hrest
    rw [breakpoints_perform]
    exact (op.nodup_edit_iff hs).2 hop

theorem not_mem_after (hs : b ∉ s.debugger.breakpoints) (h : ∀ op ∈ ops, ¬ op.Brings b) :
    b ∉ (after ops s).debugger.breakpoints := by
  induction ops generalizing s with
  | nil => exact hs
  | cons op ops ih =>
    obtain ⟨hop, hrest⟩ := List.forall_mem_cons.1 h
    refine ih ?_ hrest
    rw [breakpoints_perform]
    intro hb
    exact (Op.mem_edit hb).elim hs hop

end Session

open Session in
/-- **Breakpoints are different, and one that is taken off is gone, unless an exchange doubles one.** In a session with
a new debugger in which no condition has been exchanged for one that another entry holds, no condition is on the list
twice. Whatever is done next, this stays so if and only if it is not such an exchange; after one, the condition is
still on the list when it has been taken off. Otherwise a condition that is taken off is not on the list, and as long
as it is not asked for again it stays off it, and every run that ends at a breakpoint ends because of another. -/
theorem breakpoints_distinct {κ : Type} [Credit κ] (m : Machine κ) {ops : List (Op κ)}
    (hops : (start m).NeverDoubles ops) {s : Session κ} (hs : s = after ops (start m)) :
    s.debugger.breakpoints.Nodup ∧
    (∀ op : Op κ, (s.perform op).debugger.breakpoints.Nodup ↔ ¬ op.Doubles s.debugger.breakpoints) ∧
    (∀ old new : Breakpoint, (Op.updateBreakpoint old new : Op κ).Doubles s.debugger.breakpoints →
      new ∈ (after [.updateBreakpoint old new, .removeBreakpoint new] s).debugger.breakpoints) ∧
    ∀ (b : Breakpoint) (later : List (Op κ)), (∀ op ∈ later, ¬ op.Brings b) →
      ∀ t : Session κ, t = after (.removeBreakpoint b :: later) s →
        b ∉ t.debugger.breakpoints ∧
        ∀ limit stopDuring fuel stop, t.debugger.run limit stopDuring fuel = some stop → stop.reason = .breakpoint →
          ∃ other ∈ t.debugger.breakpoints, other ≠ b ∧ stop.RestsFor other := by
  have hdistinct : s.debugger.breakpoints.Nodup := by
    rw [hs]
    exact nodup_after List.nodup_nil hops
  refine ⟨hdistinct, fun op => ?_, ?_, ?_⟩
  · rw [breakpoints_perform]
    exact op.nodup_edit_iff hdistinct
  · rintro old new ⟨hold, hnew, hne⟩
    exact Breakpoint.mem_remove_update hold hnew hne
  · rintro b later hlater t rfl
    have hremoved : b ∉ (s.perform (.removeBreakpoint b)).debugger.breakpoints := by
      rw [breakpoints_perform]
      exact hdistinct.not_mem_erase
    have hgone : b ∉ (after (.removeBreakpoint b :: later) s).debugger.breakpoints :=
      not_mem_after (s := s.perform (.removeBreakpoint b)) hremoved hlater
    refine ⟨hgone, fun limit stopDuring fuel stop hrun hreason => ?_⟩
    obtain ⟨other, hother, hrests⟩ := (Debugger.exists_restsFor hrun).2 hreason
    refine ⟨other, hother, ?_, hrests⟩
    rintro rfl
    exact hgone hother

namespace Breakpoint

/-- the address after the one instruction of the small machine -/
def beyond : Breakpoint := { kind := .pc, value := some 82 }

/-- an address that the small machine does not come to -/
def afar : Breakpoint := { kind := .pc, value := some 84 }

end Breakpoint

/-- two conditions, one of them asked for twice: when the other is taken off, the run ends because of the one -/
theorem small_breakpoints_distinct :
    ∃ s t : Session Rat, s = .after [.addBreakpoint .beyond, .addBreakpoint .afar, .addBreakpoint .beyond]
        (.start .small) ∧
      t = .after [.removeBreakpoint .afar, .step, .reset] s ∧
      s.debugger.breakpoints.Nodup ∧ Breakpoint.afar ∉ t.debugger.breakpoints ∧
      ∃ stop : Debugger.Stop Rat, t.debugger.run none none 3 = some stop ∧ stop.reason = .breakpoint ∧
        ∃ other ∈ t.debugger.breakpoints, other ≠ .afar ∧ stop.RestsFor other := by
  have hops : (Session.start Machine.small).NeverDoubles
      [.addBreakpoint .beyond, .addBreakpoint .afar, .addBreakpoint .beyond] := by
    simp [Session.NeverDoubles, Session.Op.Doubles]
  obtain ⟨hdistinct, -, -, hgone⟩ := breakpoints_distinct Machine.small hops rfl
  refine ⟨_, _, rfl, rfl, hdistinct, ?_⟩
  obtain ⟨hafar, hends⟩ := hgone .afar [.step, .reset] (by simp [Session.Op.Brings]) _ rfl
  refine ⟨hafar, ?_⟩
  have hreason : (Debugger.run none none 3 (Session.after [.removeBreakpoint .afar, .step, .reset] (.after
      [.addBreakpoint .beyond, .addBreakpoint .afar, .addBreakpoint .beyond]
      (.start Machine.small))).debugger).map Debugger.Stop.reason = some .breakpoint := by
    decide +kernel
  obtain ⟨stop, hrun, hbreak⟩ := Option.map_eq_some_iff.1 hreason
  exact ⟨stop, hrun, hbreak, hends none none 3 stop hrun hbreak⟩

/-- the condition that is kept is exchanged for one that is on the list: it is there twice, it is there when it has been
taken off, and the run ends at it -/
theorem exchange_doubles_breakpoint :
    ∃ s : Session Rat, s = Session.after [.addBreakpoint .afar, .addBreakpoint .beyond,
        .updateBreakpoint .afar .beyond] (.start .small) ∧
      ¬ s.debugger.breakpoints.Nodup ∧
      Breakpoint.beyond ∈ (s.perform (.removeBreakpoint .beyond)).debugger.breakpoints ∧
      ((s.perform (.removeBreakpoint .beyond)).debugger.run none none 3).map Debugger.Stop.reason =
        some .breakpoint := by
  refine ⟨_, rfl, by decide, by decide, ?_⟩
  decide +kernel

end Chip8
