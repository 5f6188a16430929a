/-!
# Cutting a list into chunks

`chunks size list` cuts a list into pieces of `size` elements, of which only the last may be
shorter.

## Main results

* `flatten_chunks`: the pieces, put together again, are the list.
* `length_le_of_mem_chunks`: no piece has more than `size` elements.
-/

namespace CatalogSync

variable {α : Type}

/-- The pieces of `size` elements that a list consists of; the last one may be shorter. -/
def chunks (size : Nat) (hPos : 0 < size) : List α → List (List α)
  | [] => []
  | head :: tail =>
      (head :: tail).take size :: chunks size hPos ((head :: tail).drop size)
termination_by list => list.length
decreasing_by
  simp only [List.length_drop, List.length_cons]
  omega

theorem chunks_nil {size : Nat} {hPos : 0 < size} : chunks size hPos ([] : List α) = [] := by
  rw [chunks]

theorem chunks_of_ne_nil {size : Nat} {hPos : 0 < size} {list : List α} (hList : list ≠ []) :
    chunks size hPos list = list.take size :: chunks size hPos (list.drop size) := by
  cases list with
  | nil => exact absurd rfl hList
  | cons head tail => rw [chunks]

/-- The pieces, put together again, are the list. -/
theorem flatten_chunks {size : Nat} {hPos : 0 < size} {list : List α} :
    (chunks size hPos list).flatten = list := by
  fun_induction chunks size hPos list with
  | case1 => rfl
  | case2 head tail ih => rw [List.flatten_cons, ih, List.take_append_drop]

/-- Changing all elements of a list changes those of the pieces. -/
theorem chunks_map {β : Type} {size : Nat} {hPos : 0 < size} {f : α → β} {list : List α} :
    chunks size hPos (list.map f) = (chunks size hPos list).map (List.map f) := by
  fun_induction chunks size hPos list with
  | case1 => exact chunks_nil
  | case2 head tail ih =>
      rw [chunks_of_ne_nil (by simp), ← List.map_drop, ih, ← List.map_take, List.map_cons]

theorem length_le_of_mem_chunks {size : Nat} {hPos : 0 < size} {list piece : List α}
    (hMem : piece ∈ chunks size hPos list) : piece.length ≤ size := by
  fun_induction chunks size hPos list with
  | case1 => exact absurd hMem List.not_mem_nil
  | case2 head tail ih =>
      rcases List.mem_cons.mp hMem with rfl | hRest
      · exact List.length_take_le ..
      · exact ih hRest

end CatalogSync
