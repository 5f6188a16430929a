/-!
# Finite sets of keys

A `KeySet` is a strictly increasing list of keys, so two sets with the same members are equal and
listing a set always yields code-point order. Every set of keys that the library shows to a
collaborator or puts into a message is one of these.

## Main results

* `KeySet.mem_insert`, `KeySet.mem_ofList`, `KeySet.mem_union`, `KeySet.mem_diff`,
  `KeySet.mem_filter`, `KeySet.mem_erase`: each operation through membership.
* `KeySet.ext`: a set is determined by its members.
* `KeySet.size_insert`, `KeySet.size_diff`: how the number of members changes.
* `KeySet.size_ofList_le`: a set is at most as large as the list of its members.
-/

namespace CatalogSync

/-- A finite set of keys, listed in code-point order without repetition. -/
structure KeySet where
  /-- The members in increasing order. -/
  toList : List String
  /-- The listing is strictly increasing. -/
  sorted : toList.Pairwise (· < ·)
deriving DecidableEq, Repr

namespace KeySet

/-- Places a key into an increasing list, unless the list already holds it. -/
def insertSorted (key : String) : List String → List String
  | [] => [key]
  | head :: tail =>
      if key < head then key :: head :: tail
      else if key = head then head :: tail
      else head :: insertSorted key tail

theorem mem_insertSorted {key other : String} {keys : List String} :
    other ∈ insertSorted key keys ↔ other = key ∨ other ∈ keys := by
  induction keys with
  | nil => simp [insertSorted]
  | cons head tail ih =>
      unfold insertSorted
      split
      · simp
      · split
        · rename_i hEq
          subst hEq
          simp
        · simp only [List.mem_cons, ih]
          constructor
          · rintro (h | h | h) <;> simp [h]
          · rintro (h | h | h) <;> simp [h]

theorem insertSorted_sorted {key : String} {keys : List String}
    (hSorted : keys.Pairwise (· < ·)) : (insertSorted key keys).Pairwise (· < ·) := by
  induction keys with
  | nil => simp [insertSorted]
  | cons head tail ih =>
      rw [List.pairwise_cons] at hSorted
      unfold insertSorted
      split
      · rename_i hLt
        refine List.pairwise_cons.mpr ⟨?_, List.pairwise_cons.mpr hSorted⟩
        intro other hOther
        cases hOther with
        | head => exact hLt
        | tail _ hTail => exact String.lt_trans hLt (hSorted.1 other hTail)
      · split
        · exact List.pairwise_cons.mpr hSorted
        · rename_i hNotLt hNe
          refine List.pairwise_cons.mpr ⟨?_, ih hSorted.2⟩
          intro other hOther
          rcases mem_insertSorted.mp hOther with rfl | hTail
          · exact (Std.Trichotomous.rel_or_eq_or_rel_swap
              (r := fun a b : String => a < b)).resolve_left hNotLt |>.resolve_left hNe
          · exact hSorted.1 other hTail

/-- The set without members. -/
def empty : KeySet := ⟨[], List.Pairwise.nil⟩

instance : EmptyCollection KeySet := ⟨empty⟩

instance : Inhabited KeySet := ⟨empty⟩

instance : Membership String KeySet := ⟨fun keys key => key ∈ keys.toList⟩

instance (key : String) (keys : KeySet) : Decidable (key ∈ keys) :=
  inferInstanceAs (Decidable (key ∈ keys.toList))

/-- Whether a key is a member. -/
def contains (keys : KeySet) (key : String) : Bool := decide (key ∈ keys)

/-- Whether the set has no member. -/
def isEmpty (keys : KeySet) : Bool := keys.toList.isEmpty

/-- The number of members. -/
def size (keys : KeySet) : Nat := keys.toList.length

/-- Adds a key. -/
def insert (keys : KeySet) (key : String) : KeySet :=
  ⟨insertSorted key keys.toList, insertSorted_sorted keys.sorted⟩

/-- The members of a list, in any order and number of occurrences. -/
def ofList (keys : List String) : KeySet := keys.foldl insert empty

/-- The set of one key. -/
def singleton (key : String) : KeySet := ⟨[key], by simp⟩

/-- The members that satisfy a test. -/
def filter (keys : KeySet) (test : String → Bool) : KeySet :=
  ⟨keys.toList.filter test, keys.sorted.filter test⟩

/-- Removes a key. -/
def erase (keys : KeySet) (key : String) : KeySet := keys.filter (· ≠ key)

/-- The members of either set. -/
def union (left right : KeySet) : KeySet := right.toList.foldl insert left

/-- The members of the first set that are not in the second. -/
def diff (left right : KeySet) : KeySet := left.filter fun key => !right.contains key

/-- The members of both sets. -/
def inter (left right : KeySet) : KeySet := left.filter right.contains

/-- The members between brackets, separated by commas, as messages quote a set. -/
def render (keys : KeySet) : String := "[" ++ ", ".intercalate keys.toList ++ "]"

theorem mem_toList {keys : KeySet} {key : String} : key ∈ keys.toList ↔ key ∈ keys := Iff.rfl

@[simp] theorem not_mem_empty {key : String} : ¬ key ∈ (∅ : KeySet) := List.not_mem_nil

@[simp] theorem contains_iff {keys : KeySet} {key : String} :
    keys.contains key = true ↔ key ∈ keys := decide_eq_true_iff

@[simp] theorem mem_insert {keys : KeySet} {key other : String} :
    other ∈ keys.insert key ↔ other = key ∨ other ∈ keys := mem_insertSorted

theorem mem_foldl_insert {list : List String} {keys : KeySet} {key : String} :
    key ∈ list.foldl insert keys ↔ key ∈ list ∨ key ∈ keys := by
  induction list generalizing keys with
  | nil => simp
  | cons head tail ih =>
      rw [List.foldl_cons, ih, mem_insert, List.mem_cons]
      constructor
      · rintro (h | h | h) <;> simp [h]
      · rintro ((h | h) | h) <;> simp [h]

@[simp] theorem mem_ofList {list : List String} {key : String} :
    key ∈ ofList list ↔ key ∈ list := by
  have hEmpty : ¬ key ∈ empty := List.not_mem_nil
  simp [ofList, mem_foldl_insert, hEmpty]

@[simp] theorem mem_singleton {key other : String} : other ∈ singleton key ↔ other = key :=
  List.mem_singleton

@[simp] theorem mem_filter {keys : KeySet} {test : String → Bool} {key : String} :
    key ∈ keys.filter test ↔ key ∈ keys ∧ test key = true := List.mem_filter

@[simp] theorem mem_erase {keys : KeySet} {key other : String} :
    other ∈ keys.erase key ↔ other ∈ keys ∧ other ≠ key := by
  simp [erase]

@[simp] theorem mem_union {left right : KeySet} {key : String} :
    key ∈ left.union right ↔ key ∈ left ∨ key ∈ right := by
  rw [union, mem_foldl_insert, mem_toList, or_comm]

@[simp] theorem mem_diff {left right : KeySet} {key : String} :
    key ∈ left.diff right ↔ key ∈ left ∧ ¬ key ∈ right := by
  have hFalse : (!right.contains key) = true ↔ ¬ key ∈ right := by
    rw [Bool.not_eq_true', ← Bool.not_eq_true, contains_iff]
  rw [diff, mem_filter, hFalse]

@[simp] theorem mem_inter {left right : KeySet} {key : String} :
    key ∈ left.inter right ↔ key ∈ left ∧ key ∈ right := by
  simp [inter]

theorem nodup_toList (keys : KeySet) : keys.toList.Nodup := by
  refine keys.sorted.imp ?_
  rintro key other hLt rfl
  exact String.lt_irrefl key hLt

/-- A set is determined by its members: the listing is the one increasing arrangement of them. -/
theorem ext {left right : KeySet} (h : ∀ key, key ∈ left ↔ key ∈ right) : left = right := by
  have hPerm : left.toList.Perm right.toList :=
    (List.perm_ext_iff_of_nodup left.nodup_toList right.nodup_toList).mpr h
  have hEq : left.toList = right.toList :=
    hPerm.eq_of_pairwise (fun a b _ _ hab hba => absurd hba (String.lt_asymm hab))
      left.sorted right.sorted
  cases left
  cases right
  cases hEq
  rfl

/-- Adding a member changes nothing. -/
theorem insert_of_mem {keys : KeySet} {key : String} (hMem : key ∈ keys) : keys.insert key = keys := by
  refine ext fun other => ?_
  rw [mem_insert]
  constructor
  · rintro (rfl | hOther)
    · exact hMem
    · exact hOther
  · exact Or.inr

theorem isEmpty_iff {keys : KeySet} : keys.isEmpty = true ↔ ∀ key, ¬ key ∈ keys :=
  List.isEmpty_iff.trans List.eq_nil_iff_forall_not_mem

theorem exists_mem_of_not_isEmpty {keys : KeySet} (hSome : ¬ keys.isEmpty = true) :
    ∃ key, key ∈ keys :=
  Classical.byContradiction fun hNone => hSome (isEmpty_iff.mpr fun key hKey => hNone ⟨key, hKey⟩)

/-- Two listings without repetition that hold the same keys are equally long. -/
theorem length_eq_of_mem_iff {left right : List String} (hLeft : left.Nodup) (hRight : right.Nodup)
    (h : ∀ key, key ∈ left ↔ key ∈ right) : left.length = right.length :=
  ((List.perm_ext_iff_of_nodup hLeft hRight).mpr h).length_eq

/-- A new key makes the set larger by one. -/
theorem size_insert {keys : KeySet} {key : String} (hNew : ¬ key ∈ keys) :
    (keys.insert key).size = keys.size + 1 := by
  have hNodup : (key :: keys.toList).Nodup := List.nodup_cons.mpr ⟨hNew, keys.nodup_toList⟩
  refine length_eq_of_mem_iff (nodup_toList _) hNodup fun other => ?_
  rw [mem_toList, mem_insert, List.mem_cons]
  rfl

/-- A set of different keys is as large as the list. -/
theorem size_ofList {list : List String} (hNodup : list.Nodup) :
    (ofList list).size = list.length :=
  length_eq_of_mem_iff (nodup_toList _) hNodup fun _ => mem_ofList

/-- A set is at most as large as the list of its members. -/
theorem size_ofList_le {list : List String} : (ofList list).size ≤ list.length := by
  have hInsert : ∀ (keys : KeySet) (key : String), (keys.insert key).size ≤ keys.size + 1 := by
    intro keys key
    by_cases hMem : key ∈ keys
    · rw [insert_of_mem hMem]
      exact Nat.le_succ _
    · exact Nat.le_of_eq (size_insert hMem)
  have hFold : ∀ keys : KeySet, (list.foldl insert keys).size ≤ list.length + keys.size := by
    induction list with
    | nil => exact fun keys => Nat.le_add_left ..
    | cons head tail ih =>
        intro keys
        have hTail : (tail.foldl insert (keys.insert head)).size ≤
            tail.length + (keys.insert head).size := ih (keys.insert head)
        have hHead := hInsert keys head
        rw [List.foldl_cons, List.length_cons]
        omega
  exact hFold empty

/-- Taking members away leaves the others. -/
theorem size_diff {left right : KeySet} (hSub : ∀ key ∈ right, key ∈ left) :
    (left.diff right).size + right.size = left.size := by
  have hApart : ((left.diff right).toList ++ right.toList).Nodup := by
    refine List.nodup_append.mpr ⟨nodup_toList _, nodup_toList _, ?_⟩
    rintro key hKey other hOther rfl
    exact (mem_diff.mp hKey).2 hOther
  rw [size, size, ← List.length_append]
  refine length_eq_of_mem_iff hApart left.nodup_toList fun key => ?_
  rw [List.mem_append, mem_toList, mem_toList, mem_toList, mem_diff]
  constructor
  · rintro (hRest | hKey)
    · exact hRest.1
    · exact hSub key hKey
  · intro hKey
    by_cases hRight : key ∈ right
    · exact Or.inr hRight
    · exact Or.inl ⟨hKey, hRight⟩

end KeySet

end CatalogSync
