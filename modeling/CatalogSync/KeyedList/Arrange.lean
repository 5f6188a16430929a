/-!
# Bringing a list into an order of keys

`arrangeBy` sorts a list by a rank and keeps elements of equal rank in their order. `arrange` ranks
an element by the first place of its key in a list of keys; elements whose keys are not listed come
last. `modifyFirst` changes the one element that a key addresses.

## Main results

* `arrangeBy_perm`: nothing is lost or added.
* `arrangeBy_sorted`: the ranks do not decrease.
* `filter_arrangeBy`: the elements of any one rank keep their order.
-/

namespace CatalogSync.KeyedList

variable {ε : Type}

/-- Places an element before the first one whose rank is not smaller. -/
def insertByRank (rank : ε → Nat) (element : ε) : List ε → List ε
  | [] => [element]
  | head :: tail =>
      if rank element ≤ rank head then element :: head :: tail
      else head :: insertByRank rank element tail

/-- The list by increasing rank, elements of equal rank in their order. -/
def arrangeBy (rank : ε → Nat) (list : List ε) : List ε := list.foldr (insertByRank rank) []

/-- The list in the order of a list of keys, elements with other keys last. -/
def arrange (key : ε → String) (keys : List String) (list : List ε) : List ε :=
  arrangeBy (fun element => keys.idxOf (key element)) list

/-- Changes the first element that passes a test. -/
def modifyFirst (test : ε → Bool) (f : ε → ε) : List ε → List ε
  | [] => []
  | head :: tail => if test head then f head :: tail else head :: modifyFirst test f tail

theorem insertByRank_perm {rank : ε → Nat} {element : ε} {list : List ε} :
    (insertByRank rank element list).Perm (element :: list) := by
  induction list with
  | nil => exact List.Perm.refl _
  | cons head tail ih =>
      unfold insertByRank
      split
      · exact List.Perm.refl _
      · exact (ih.cons head).trans (List.Perm.swap element head tail)

/-- Arranging loses nothing and adds nothing. -/
theorem arrangeBy_perm {rank : ε → Nat} {list : List ε} : (arrangeBy rank list).Perm list := by
  induction list with
  | nil => exact List.Perm.refl _
  | cons head tail ih => exact insertByRank_perm.trans (ih.cons head)

theorem insertByRank_sorted {rank : ε → Nat} {element : ε} {list : List ε}
    (hSorted : list.Pairwise fun left right => rank left ≤ rank right) :
    (insertByRank rank element list).Pairwise fun left right => rank left ≤ rank right := by
  induction list with
  | nil => exact List.pairwise_singleton _ _
  | cons head tail ih =>
      have hHead := (List.pairwise_cons.mp hSorted).1
      unfold insertByRank
      split
      · rename_i hLe
        refine List.pairwise_cons.mpr ⟨?_, hSorted⟩
        intro other hOther
        rcases List.mem_cons.mp hOther with rfl | hTail
        · exact hLe
        · exact Nat.le_trans hLe (hHead other hTail)
      · rename_i hGt
        refine List.pairwise_cons.mpr ⟨?_, ih (List.pairwise_cons.mp hSorted).2⟩
        intro other hOther
        rcases List.mem_cons.mp (insertByRank_perm.mem_iff.mp hOther) with rfl | hTail
        · exact Nat.le_of_not_le hGt
        · exact hHead other hTail

/-- Arranged elements stand by increasing rank. -/
theorem arrangeBy_sorted {rank : ε → Nat} {list : List ε} :
    (arrangeBy rank list).Pairwise fun left right => rank left ≤ rank right := by
  induction list with
  | nil => exact List.Pairwise.nil
  | cons head tail ih => exact insertByRank_sorted ih

theorem filter_insertByRank {rank : ε → Nat} {element : ε} {list : List ε} (r : Nat) :
    (insertByRank rank element list).filter (fun other => rank other == r) =
      (element :: list).filter fun other => rank other == r := by
  induction list with
  | nil => rfl
  | cons head tail ih =>
      unfold insertByRank
      split
      · rfl
      · rename_i hGt
        have hApart : ¬ (rank element = r ∧ rank head = r) := by omega
        rw [List.filter_cons, ih]
        simp only [List.filter_cons, beq_iff_eq]
        by_cases hElement : rank element = r
        · have hHead : ¬ rank head = r := fun h => hApart ⟨hElement, h⟩
          simp [hElement, hHead]
        · simp [hElement]

/-- Elements of one rank keep their order. -/
theorem filter_arrangeBy {rank : ε → Nat} {list : List ε} (r : Nat) :
    (arrangeBy rank list).filter (fun other => rank other == r) =
      list.filter fun other => rank other == r := by
  induction list with
  | nil => rfl
  | cons head tail ih =>
      show (insertByRank rank head (arrangeBy rank tail)).filter _ = _
      rw [filter_insertByRank, List.filter_cons, List.filter_cons, ih]

end CatalogSync.KeyedList
