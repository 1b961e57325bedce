/-
The call stack: sixteen slots and the number of the newest entry. Slot 0 stands for the empty stack and is never
written, so fifteen return addresses fit. `CallStack.toList` is the stack as its users see it, newest entry first.
A pushed address keeps its low sixteen bits.
-/
import Chip8.Fault

namespace Chip8

/-- the slot that stands for the empty stack -/
def CallStack.bottom : Fin 16 := ⟨0, by decide⟩

/-- the slots, and the one that holds the newest entry -/
structure CallStack where
  slots : Vector Nat 16 := Vector.replicate 16 0
  top : Fin 16 := CallStack.bottom
  deriving DecidableEq, Repr

namespace CallStack

def capacity : Nat := 15

/-- nothing held, every slot zero -/
def empty : CallStack := {}

/-- put the low sixteen bits of a value on top -/
def push (s : CallStack) (value : Int) : Except Fault CallStack :=
  if h : s.top.val + 1 < 16 then
    .ok { slots := s.slots.set (s.top.val + 1) (value % 0x10000).toNat, top := ⟨s.top.val + 1, h⟩ }
  else .error .stackOverflow

/-- take the newest entry off; its slot keeps the value -/
def pop (s : CallStack) : Except Fault (Nat × CallStack) :=
  if s.top.val = 0 then .error .stackUnderflow
  else .ok (s.slots[s.top], { s with top := ⟨s.top.val - 1, by omega⟩ })

/-- the entries held, newest first -/
def toList (s : CallStack) : List Nat := ((s.slots.toList.drop 1).take s.top.val).reverse

end CallStack

end Chip8
