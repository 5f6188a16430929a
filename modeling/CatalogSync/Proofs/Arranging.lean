import CatalogSync.KeyedList.Arrange
import Mathlib.Data.List.Nodup
import Mathlib.Data.List.Perm.Basic

/-!
# Lists in the order of their keys

A list of elements with different keys is determined by the elements that it holds and the order of
their keys. Arranging it by a list of keys brings the listed elements into the order of that list
and leaves the others in theirs.

## Main results

* `eq_of_keys`: elements of a list, with all of its keys in its order, are the list.
* `keys_arrange`: the listed keys stand in the order of the list of keys.
* `filter_arrange`: the elements that are not listed keep their order.
-/

namespace CatalogSync.KeyedList

variable {ε : Type} {key : ε → String} {keys : List String} {list new : List ε}

/-! ## Elements and keys -/

/-- What relates the elements of two lists that share a key relates the lists, if they have the same
different keys in the same order. -/
theorem forall₂_of_keys {R : ε → ε → Prop} (hKeys : list.map key = new.map key)
    (hRelated : ∀ element ∈ list, ∀ other ∈ new, key element = key other → R element other) :
    List.Forall₂ R list new := by
  induction list generalizing new with
  | nil =>
      rw [List.map_eq_nil_iff.mp hKeys.symm]
      exact .nil
  | cons element rest ih =>
      cases new with
      | nil => cases hKeys
      | cons other others =>
          rw [List.map_cons, List.map_cons, List.cons.injEq] at hKeys
          refine .cons (hRelated element (List.mem_cons_self ..) other (List.mem_cons_self ..)
            hKeys.1) (ih hKeys.2 fun left hLeft right hRight => ?_)
          exact hRelated left (List.mem_cons_of_mem _ hLeft) right (List.mem_cons_of_mem _ hRight)

/-- Each element of a list is related to one of a related list. -/
theorem exists_of_forall₂ {R : ε → ε → Prop} (hLists : List.Forall₂ R list new) :
    ∀ element ∈ list, ∃ other ∈ new, R element other := by
  induction hLists with
  | nil => exact fun _ hMem => absurd hMem List.not_mem_nil
  | cons hRelated _ ih =>
      intro element hElement
      rcases List.mem_cons.mp hElement with rfl | hRest
      · exact ⟨_, List.mem_cons_self .., hRelated⟩
      · obtain ⟨other, hOther, hSame⟩ := ih element hRest
        exact ⟨other, List.mem_cons_of_mem _ hOther, hSame⟩

/-- Lists that are related element by element have the same keys if related elements do. -/
theorem keys_of_forall₂ {R : ε → ε → Prop} (hLists : List.Forall₂ R list new)
    (hKeys : ∀ element other, R element other → key element = key other) :
    list.map key = new.map key := by
  induction hLists with
  | nil => rfl
  | cons hRelated _ ih => rw [List.map_cons, List.map_cons, hKeys _ _ hRelated, ih]

/-- Elements of a list with different keys that have all of its keys, in its order, are the list. -/
theorem eq_of_keys (hMem : ∀ element ∈ list, element ∈ new) (hKeys : list.map key = new.map key)
    (hNodup : (new.map key).Nodup) : list = new := by
  have hSame : List.Forall₂ (· = ·) list new :=
    forall₂_of_keys hKeys fun element hElement other hOther =>
      List.inj_on_of_nodup_map hNodup (hMem element hElement) hOther
  rwa [List.forall₂_eq_eq_eq] at hSame

/-! ## Arranging by keys -/

/-- Different keys stand by increasing place. -/
theorem idxOf_sorted (hNodup : keys.Nodup) :
    keys.Pairwise fun left right => keys.idxOf left ≤ keys.idxOf right := by
  rw [List.pairwise_iff_getElem]
  intro i j hi hj hLt
  rw [hNodup.idxOf_getElem i hi, hNodup.idxOf_getElem j hj]
  exact Nat.le_of_lt hLt

/-- The listed keys of an arranged list are the list of keys, if it holds each of them once. -/
theorem keys_arrange (hNodup : keys.Nodup)
    (hPerm : ((list.map key).filter keys.contains).Perm keys) :
    ((arrange key keys list).map key).filter keys.contains = keys := by
  have hListed : (((arrange key keys list).map key).filter keys.contains).Perm keys :=
    ((arrangeBy_perm.map key).filter _).trans hPerm
  have hSorted : ((arrange key keys list).map key).Pairwise fun left right =>
      keys.idxOf left ≤ keys.idxOf right := List.pairwise_map.mpr arrangeBy_sorted
  refine List.Perm.eq_of_pairwise (fun left right hLeft _ hLe hGe => ?_) (hSorted.filter _)
    (idxOf_sorted hNodup) hListed
  exact (List.idxOf_inj (hListed.mem_iff.mp hLeft)).mp (Nat.le_antisymm hLe hGe)

/-- The elements that are not listed keep their order. -/
theorem filter_arrange :
    (arrange key keys list).filter (fun element => !keys.contains (key element)) =
      list.filter fun element => !keys.contains (key element) := by
  have hLast : (fun element => !keys.contains (key element)) =
      fun element => keys.idxOf (key element) == keys.length := by
    funext element
    rw [Bool.eq_iff_iff, Bool.not_eq_true', ← Bool.not_eq_true, List.contains_iff_mem, beq_iff_eq,
      List.idxOf_eq_length_iff]
  rw [hLast]
  exact filter_arrangeBy keys.length

/-! ## Changing and placing one element -/

/-- A change of the first element that passes a test changes the element after those that fail it.
-/
theorem modifyFirst_append {test : ε → Bool} {f : ε → ε} {front back : List ε} {element : ε}
    (hFront : ∀ other ∈ front, ¬ test other = true) (hTest : test element = true) :
    modifyFirst test f (front ++ element :: back) = front ++ f element :: back := by
  induction front with
  | nil => rw [List.nil_append, modifyFirst, if_pos hTest, List.nil_append]
  | cons head tail ih =>
      rw [List.cons_append, modifyFirst, if_neg (hFront head (List.mem_cons_self ..)),
        ih fun other hOther => hFront other (List.mem_cons_of_mem _ hOther), List.cons_append]

/-- An element inserted behind a number of elements stands right after them. -/
theorem insertIdx_append {front back : List ε} {element : ε} :
    (front ++ back).insertIdx front.length element = front ++ element :: back := by
  induction front with
  | nil => rfl
  | cons head tail ih =>
      rw [List.cons_append, List.length_cons, List.insertIdx_succ_cons, ih, List.cons_append]

end CatalogSync.KeyedList
