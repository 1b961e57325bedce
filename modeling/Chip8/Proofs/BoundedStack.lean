/-
The call stack as a stack: a list of the entries held, newest first, with room for fifteen of sixteen bits each. The
slots above the pointer keep what was in them and the bottom slot is left out, so the list is read off the slots up to
the pointer (`CallStack.toList`); what a request does to it is `CallStack.Request.ofHeld`.

- `CallStack.toList_pushed`, `CallStack.toList_of_entry`: the two changes of a call stack, as changes of its list.
- `Request.ofState_mirrors`: one request to a processor beside the same request to the list.
- `State.replies_ofState`, `State.refines_afterAll`: requests one after the other.
- `call_stack_is_lifo`: from a reset on.
-/
import Chip8.Proofs.Nesting

namespace Chip8

open Act

/-! ## Requests one after the other -/

namespace Act

variable {ε σ α ρ : Type}

def reply (a : EStateM ε σ α) (s : σ) : Except ε α :=
  match a s with
  | .ok r _ => .ok r
  | .error e _ => .error e

/-- the answers to requests, one after the other; each finds what the ones before it have left, refused or not -/
def replies (act : ρ → EStateM ε σ α) : σ → List ρ → List (Except ε α)
  | _, [] => []
  | s, r :: rs => reply (act r) s :: replies act (left (act r) s) rs

def afterAll (act : ρ → EStateM ε σ α) (s : σ) (rs : List ρ) : σ := rs.foldl (fun s r => left (act r) s) s

end Act

namespace CallStack

inductive Request where
  | push (value : Int)
  | pop
  deriving DecidableEq, Repr

/-- a request to the list of entries held, newest first; a pop is answered with the entry that it takes off -/
def Request.ofHeld (r : Request) : EStateM Fault (List Nat) (Option Nat) := fun held =>
  match r, held with
  | push value, held =>
    if held.length = capacity then .error .stackOverflow held else .ok none ((value % 65536).toNat :: held)
  | pop, [] => .error .stackUnderflow []
  | pop, value :: rest => .ok (some value) rest

end CallStack

open CallStack

/-- a request to the call stack of a processor -/
def CallStack.Request.ofState : Request → Effect (Option Nat)
  | push value => do
    Effect.push value
    return none
  | pop => do return some (← Effect.pop)

/-! ## The list of entries -/

namespace CallStack

variable {s : CallStack}

theorem length_toList (s : CallStack) : s.toList.length = s.top.val := by
  have htop := s.top.isLt
  rw [toList, List.length_reverse, List.length_take, List.length_drop, Vector.length_toList]
  omega

/-- slot 1 holds the oldest entry, and the slot of the pointer the newest -/
theorem getElem?_reverse_toList (k : Fin 16) (hlow : 1 ≤ k.val) (hhigh : k.val ≤ s.top.val) :
    s.toList.reverse[k.val - 1]? = some (s.slots.get k) := by
  rw [toList, List.reverse_reverse, List.getElem?_take_of_lt (by omega), List.getElem?_drop,
    show 1 + (k.val - 1) = k.val by omega, Vector.getElem?_toList]
  exact Vector.getElem?_eq_getElem k.isLt

theorem toList_pushed (h : s.top.val ≠ 15) (value : Int) :
    (s.pushed value).toList = (value % 0x10000).toNat :: s.toList := by
  have hroom : s.top.val + 1 < 16 := by omega
  have hslots : (s.pushed value).slots.toList = s.slots.toList.set (s.top.val + 1) (value % 0x10000).toNat := by
    rw [pushed, dif_pos hroom, Vector.toList_set]
  have hused : ((s.slots.toList.drop 1).set s.top.val (value % 0x10000).toNat).take (s.top.val + 1) =
      (s.slots.toList.drop 1).take s.top.val ++ [(value % 0x10000).toNat] := by
    have hlength : s.top.val < (s.slots.toList.drop 1).length := by
      rw [List.length_drop, Vector.length_toList]
      omega
    rw [List.take_add_one, List.take_set_of_le (le_refl _), List.getElem?_set_self hlength]
    rfl
  rw [toList, top_pushed h, hslots, List.drop_set, if_neg (by omega), Nat.add_sub_cancel, hused, List.reverse_concat,
    toList]

/-- a stack that is not empty has the entry in the slot of its pointer in front -/
theorem toList_of_entry (h : s.top.val ≠ 0) : s.toList = s.slots.get s.top :: s.popped.toList := by
  have hlast : (s.slots.toList.drop 1)[s.top.val - 1]? = some (s.slots.get s.top) := by
    rw [List.getElem?_drop, show 1 + (s.top.val - 1) = s.top.val by omega, Vector.getElem?_toList]
    exact Vector.getElem?_eq_getElem s.top.isLt
  have hused : (s.slots.toList.drop 1).take s.top.val =
      (s.slots.toList.drop 1).take (s.top.val - 1) ++ [s.slots.get s.top] := by
    rw [show s.top.val = s.top.val - 1 + 1 by omega, List.take_add_one, Nat.add_sub_cancel, hlast]
    rfl
  rw [toList, hused, List.reverse_concat]
  rfl

theorem toList_eq_nil_iff : s.toList = [] ↔ s.top.val = 0 := by
  rw [← List.length_eq_zero_iff, length_toList]

end CallStack

/-! ## Requests to a processor -/

def State.withStack (s : State) (stack : CallStack) : State := s.withCpu { s.cpu with stack }

/-- the answer of a processor in the state `s` beside the answer of the list: they are the same, the call stack left
holds what is left of the list, and its bottom slot and all the rest of the state are as they were; a request that is
refused has changed nothing -/
inductive State.Mirrors (s : State) :
    EStateM.Result Fault State (Option Nat) → EStateM.Result Fault (List Nat) (Option Nat) → Prop
  | ok (a : Option Nat) {stack : CallStack} : stack.slots.get 0 = s.cpu.stack.slots.get 0 →
      s.Mirrors (.ok a (s.withStack stack)) (.ok a stack.toList)
  | error (f : Fault) : s.Mirrors (.error f s) (.error f s.cpu.stack.toList)

namespace CallStack.Request

variable (s : State)

theorem ofState_push (value : Int) :
    (push value).ofState s =
      if s.cpu.stack.top.val = 15 then .error .stackOverflow s
      else .ok none (s.withStack (s.cpu.stack.pushed value)) := by
  simp only [ofState, bind_apply, Effect.push_apply]
  split_ifs <;> rfl

theorem ofState_pop :
    pop.ofState s =
      if s.cpu.stack.top.val = 0 then .error .stackUnderflow s
      else .ok (some (s.cpu.stack.slots.get s.cpu.stack.top)) (s.withStack s.cpu.stack.popped) := by
  simp only [ofState, bind_apply, Effect.pop_apply]
  split_ifs <;> rfl

/-- one request to a processor, whatever is in its slots -/
theorem ofState_mirrors (r : Request) : s.Mirrors (r.ofState s) (r.ofHeld s.cpu.stack.toList) := by
  cases r with
  | push value =>
    rw [ofState_push]
    simp only [ofHeld, length_toList, capacity]
    split_ifs with hfull
    · exact .error _
    · have hentries := toList_pushed hfull value
      rw [← hentries]
      exact .ok none (slots_pushed_of_le 0 (Nat.zero_le _))
  | pop =>
    rw [ofState_pop]
    split_ifs with hempty
    · have hnil := State.Mirrors.error (s := s) .stackUnderflow
      rw [toList_eq_nil_iff.2 hempty] at hnil ⊢
      exact hnil
    · rw [toList_of_entry hempty]
      exact .ok _ rfl

end CallStack.Request

namespace State

/-- `t` is what the state `s` has become when its stack holds the entries: its bottom slot and all but the stack are as
they were -/
structure Refines (s : State) (held : List Nat) (t : State) : Prop where
  others : t = s.withStack t.cpu.stack
  entries : t.cpu.stack.toList = held
  bottom : t.cpu.stack.slots.get 0 = s.cpu.stack.slots.get 0

theorem Refines.refl (s : State) : s.Refines s.cpu.stack.toList s := ⟨rfl, rfl, rfl⟩

theorem Refines.trans {s t u : State} {held held' : List Nat} (h : s.Refines held t) (h' : t.Refines held' u) :
    s.Refines held' u := by
  refine ⟨?_, h'.entries, h'.bottom.trans h.bottom⟩
  calc u = t.withStack u.cpu.stack := h'.others
    _ = (s.withStack t.cpu.stack).withStack u.cpu.stack := by rw [← h.others]
    _ = s.withStack u.cpu.stack := rfl

variable (s : State) (r : Request) (rs : List Request)

theorem refines_left : s.Refines (left r.ofHeld s.cpu.stack.toList) (left r.ofState s) := by
  have h := Request.ofState_mirrors s r
  unfold left
  generalize r.ofState s = result, r.ofHeld s.cpu.stack.toList = result' at h
  cases h with
  | ok a hbottom => exact ⟨rfl, rfl, hbottom⟩
  | error f => exact .refl s

theorem reply_ofState : reply r.ofState s = reply r.ofHeld s.cpu.stack.toList := by
  have h := Request.ofState_mirrors s r
  unfold reply
  generalize r.ofState s = result, r.ofHeld s.cpu.stack.toList = result' at h
  cases h <;> rfl

/-- requests to a processor are answered as requests to the list of its entries are -/
theorem replies_ofState : replies Request.ofState s rs = replies Request.ofHeld s.cpu.stack.toList rs := by
  induction rs generalizing s with
  | nil => rfl
  | cons r rs ih => rw [replies, replies, reply_ofState, ih, (s.refines_left r).entries]

/-- requests to a processor leave what requests to the list of its entries leave -/
theorem refines_afterAll :
    s.Refines (afterAll Request.ofHeld s.cpu.stack.toList rs) (afterAll Request.ofState s rs) := by
  induction rs generalizing s with
  | nil => exact .refl s
  | cons r rs ih =>
    have hfirst := s.refines_left r
    have hrest := ih (left r.ofState s)
    rw [hfirst.entries] at hrest
    exact hfirst.trans hrest

end State

/-- **The call stack is a bounded stack.** Pushes of any integers and pops, in any order, are answered from a reset on as
a list of entries answers them that has room for fifteen. They change nothing but the call stack; the pointer is the
number of entries held, and the slots from 1 up to it hold them in order. The next push is refused if and only if there
are fifteen entries, with an overflow, and the next pop if and only if there is none, with an underflow, and neither
changes anything then; any other pop gives the newest entry. From no state does a request write the bottom slot. -/
theorem call_stack_is_lifo (s : State) (rs : List Request) :
    let start := left Effect.resetCpu s
    let held := afterAll Request.ofHeld [] rs
    let t := afterAll Request.ofState start rs
    replies Request.ofState start rs = replies Request.ofHeld [] rs ∧
    t = start.withStack t.cpu.stack ∧
    t.cpu.stack.top.val = held.length ∧
    (∀ k : Fin 16, 1 ≤ k.val → k.val ≤ held.length → held.reverse[k.val - 1]? = some (t.cpu.stack.slots.get k)) ∧
    (∀ value f u, Effect.push value t = .error f u ↔ held.length = 15 ∧ f = .stackOverflow ∧ u = t) ∧
    (∀ f u, Effect.pop t = .error f u ↔ held = [] ∧ f = .stackUnderflow ∧ u = t) ∧
    (∀ value u, Effect.pop t = .ok value u → held.head? = some value) ∧
    ∀ (r : Request) (u : State), (left r.ofState u).cpu.stack.slots.get 0 = u.cpu.stack.slots.get 0 := by
  intro start held t
  have hempty : start.cpu.stack.toList = [] := rfl
  have hrefines : start.Refines held t := by
    have h := start.refines_afterAll rs
    rwa [hempty] at h
  have htop : t.cpu.stack.top.val = held.length := by rw [← hrefines.entries, length_toList]
  refine ⟨?_, hrefines.others, htop, fun k hlow hhigh => ?_, fun value f u => ?_, fun f u => ?_, fun value u hpop => ?_,
    fun r u => (u.refines_left r).bottom⟩
  · rw [start.replies_ofState rs, hempty]
  · rw [← hrefines.entries]
    exact getElem?_reverse_toList k hlow (htop ▸ hhigh)
  · rw [Effect.push_apply, ← htop]
    split_ifs with hfull
    · simp [hfull, eq_comm]
    · simp [hfull]
  · rw [Effect.pop_apply, ← hrefines.entries, toList_eq_nil_iff]
    split_ifs with hnone
    · simp [hnone, eq_comm]
    · simp [hnone]
  · rw [Effect.pop_apply] at hpop
    split_ifs at hpop with hnone
    cases hpop
    rw [← hrefines.entries, toList_of_entry hnone]
    rfl

end Chip8
