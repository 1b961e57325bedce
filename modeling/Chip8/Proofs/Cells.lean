/-
Sparse images as maps. Cells put one after the other make an image in which every address is named once
(`nodup_ofList`) and has the value that was put there last (`get?_ofList`, `getElem?_lastValues_concat`).
-/
import Mathlib.Tactic
import Chip8.Rom.Image

namespace Chip8.Sparse

variable {cells : List (Int × Int)} {values : Std.HashMap Int Int} {a : Int}

/-! ## Last values -/

/-- one more cell gives its address a new value -/
theorem getElem?_lastValues_concat (cells : List (Int × Int)) (c : Int × Int) (a : Int) :
    (lastValues (cells ++ [c]))[a]? = if c.1 = a then some c.2 else (lastValues cells)[a]? := by
  rw [lastValues, List.foldl_concat, Std.HashMap.getElem?_insert]
  simp only [beq_iff_eq]
  rfl

/-- an address has no value unless a cell names it -/
theorem getElem?_lastValues_of_not_mem (h : a ∉ cells.map Prod.fst) : (lastValues cells)[a]? = none := by
  induction cells using List.reverseRecOn with
  | nil => exact Std.HashMap.getElem?_empty
  | append_singleton cells c ih =>
    rw [List.map_append, List.mem_append, not_or] at h
    obtain ⟨hcells, hc⟩ := h
    rw [getElem?_lastValues_concat, if_neg (fun heq => hc (by simp [heq])), ih hcells]

/-! ## Images -/

/-- an image gathered from a table has its values at the addresses named -/
theorem get?_gather (values : Std.HashMap Int Int) (cells : List (Int × Int)) (a : Int) :
    (gather values cells).get? a = if a ∈ cells.map Prod.fst then values[a]? else none := by
  induction cells generalizing values with
  | nil => rfl
  | cons c cells ih =>
    rw [gather, List.map_cons]
    cases hvalue : values[c.1]? with
    | none =>
      simp only [ih]
      by_cases heq : a = c.1
      · rw [heq, hvalue, if_pos List.mem_cons_self, ite_self]
      · simp only [List.mem_cons, heq, false_or]
    | some v =>
      by_cases heq : c.1 = a
      · rw [← heq, if_pos List.mem_cons_self, hvalue]
        simp [get?]
      · have hothers (rest : Sparse) : get? ((c.1, v) :: rest) a = rest.get? a := by simp [get?, heq]
        have herase : (values.erase c.1)[a]? = values[a]? := by
          rw [Std.HashMap.getElem?_erase, if_neg (by simpa using heq)]
        simp only [hothers, ih, herase, List.mem_cons, Ne.symm heq, false_or]

/-- an image gathered from a table names addresses of the table only -/
theorem mem_of_mem_gather (h : a ∈ (gather values cells).map Prod.fst) : a ∈ values := by
  induction cells generalizing values with
  | nil => cases h
  | cons c cells ih =>
    rw [gather] at h
    cases hvalue : values[c.1]? with
    | none =>
      rw [hvalue] at h
      exact ih h
    | some v =>
      rw [hvalue, List.map_cons, List.mem_cons] at h
      rcases h with rfl | hrest
      · exact Std.HashMap.mem_iff_isSome_getElem?.2 (by rw [hvalue]; rfl)
      · exact (Std.HashMap.mem_erase.1 (ih hrest)).2

/-- an address is taken out of the table once it has been named -/
theorem nodup_gather (values : Std.HashMap Int Int) (cells : List (Int × Int)) :
    ((gather values cells).map Prod.fst).Nodup := by
  induction cells generalizing values with
  | nil => exact List.nodup_nil
  | cons c cells ih =>
    rw [gather]
    cases hvalue : values[c.1]? with
    | none => exact ih values
    | some v =>
      rw [List.map_cons, List.nodup_cons]
      refine ⟨fun hmem => ?_, ih _⟩
      obtain ⟨hne, -⟩ := Std.HashMap.mem_erase.1 (mem_of_mem_gather hmem)
      simp at hne

/-- every address has the value that was put there last -/
theorem get?_ofList (cells : List (Int × Int)) (a : Int) : (ofList cells).get? a = (lastValues cells)[a]? := by
  rw [ofList, get?_gather]
  split_ifs with hmem
  · rfl
  · exact (getElem?_lastValues_of_not_mem hmem).symm

theorem nodup_ofList (cells : List (Int × Int)) : ((ofList cells).map Prod.fst).Nodup := nodup_gather _ cells

end Chip8.Sparse
