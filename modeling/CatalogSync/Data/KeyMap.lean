import CatalogSync.Data.KeySet

/-!
# Finite maps from keys

A `KeyMap α` lists its entries by strictly increasing key, so two maps with the same look-ups are
equal and walking through a map visits the keys in code-point order. The remote's resources, the
staging containers, the waiting index and the texts of a localized string are all such maps.

## Main results

* `KeyMap.get?_insert_self`, `KeyMap.get?_insert_ne`: writing an entry changes that look-up only.
* `KeyMap.get?_erase_self`, `KeyMap.get?_erase_ne`: removing an entry changes that look-up only.
* `KeyMap.ext_get?`: a map is determined by its look-ups.
* `KeyMap.ofList_entries`: a map is made of its entries.
-/

namespace CatalogSync

/-- A finite map from keys, its entries listed in code-point order of their keys. -/
structure KeyMap (α : Type) where
  /-- The entries by increasing key. -/
  entries : List (String × α)
  /-- The keys are strictly increasing. -/
  sorted : entries.Pairwise fun left right => left.1 < right.1
deriving DecidableEq, Repr

namespace KeyMap

variable {α : Type}

/-- Writes an entry into an increasing list, in place of one with the same key. -/
def insertSorted (key : String) (value : α) : List (String × α) → List (String × α)
  | [] => [(key, value)]
  | head :: tail =>
      if key < head.1 then (key, value) :: head :: tail
      else if key = head.1 then (key, value) :: tail
      else head :: insertSorted key value tail

theorem fst_mem_insertSorted {key : String} {value : α} {list : List (String × α)}
    {entry : String × α} (hMem : entry ∈ insertSorted key value list) :
    entry = (key, value) ∨ entry ∈ list := by
  induction list with
  | nil => simpa [insertSorted] using hMem
  | cons head tail ih =>
      unfold insertSorted at hMem
      split at hMem
      · simpa using hMem
      · split at hMem
        · rcases List.mem_cons.mp hMem with h | h <;> simp [h]
        · rcases List.mem_cons.mp hMem with h | h
          · simp [h]
          · rcases ih h with h | h <;> simp [h]

theorem insertSorted_sorted {key : String} {value : α} {list : List (String × α)}
    (hSorted : list.Pairwise fun left right => left.1 < right.1) :
    (insertSorted key value list).Pairwise fun left right => left.1 < right.1 := by
  induction list with
  | nil => simp [insertSorted]
  | cons head tail ih =>
      rw [List.pairwise_cons] at hSorted
      unfold insertSorted
      split
      · rename_i hLt
        refine List.pairwise_cons.mpr ⟨?_, List.pairwise_cons.mpr hSorted⟩
        intro entry hEntry
        rcases List.mem_cons.mp hEntry with rfl | hTail
        · exact hLt
        · exact String.lt_trans hLt (hSorted.1 entry hTail)
      · split
        · rename_i hEq
          refine List.pairwise_cons.mpr ⟨?_, hSorted.2⟩
          intro entry hEntry
          exact hEq ▸ hSorted.1 entry hEntry
        · rename_i hNotLt hNe
          refine List.pairwise_cons.mpr ⟨?_, ih hSorted.2⟩
          intro entry hEntry
          rcases fst_mem_insertSorted hEntry with rfl | hTail
          · exact (Std.Trichotomous.rel_or_eq_or_rel_swap
              (r := fun a b : String => a < b)).resolve_left hNotLt |>.resolve_left hNe
          · exact hSorted.1 entry hTail

/-- The map without entries. -/
def empty : KeyMap α := ⟨[], List.Pairwise.nil⟩

instance : EmptyCollection (KeyMap α) := ⟨empty⟩

instance : Inhabited (KeyMap α) := ⟨empty⟩

/-- The value under a key. -/
def get? (map : KeyMap α) (key : String) : Option α := map.entries.lookup key

/-- Whether a key has a value. -/
def contains (map : KeyMap α) (key : String) : Bool := (map.get? key).isSome

/-- Writes a value under a key, replacing any previous one. -/
def insert (map : KeyMap α) (key : String) (value : α) : KeyMap α :=
  ⟨insertSorted key value map.entries, insertSorted_sorted map.sorted⟩

/-- Removes every entry whose key fails a test. -/
def filterKeys (map : KeyMap α) (test : String → Bool) : KeyMap α :=
  ⟨map.entries.filter fun entry => test entry.1, map.sorted.filter _⟩

/-- Removes the entry under a key. -/
def erase (map : KeyMap α) (key : String) : KeyMap α := map.filterKeys (· ≠ key)

/-- The number of entries. -/
def size (map : KeyMap α) : Nat := map.entries.length

/-- Whether the map has no entry. -/
def isEmpty (map : KeyMap α) : Bool := map.entries.isEmpty

/-- The values by increasing key. -/
def values (map : KeyMap α) : List α := map.entries.map (·.2)

/-- The keys that have a value. -/
def keys (map : KeyMap α) : KeySet :=
  ⟨map.entries.map (·.1), List.pairwise_map.mpr map.sorted⟩

/-- The values under a set of keys, by increasing key; keys without a value are passed over. -/
def select (map : KeyMap α) (keys : KeySet) : List α := keys.toList.filterMap map.get?

/-- The map of a list of entries; of two entries with one key the later counts. -/
def ofList (list : List (String × α)) : KeyMap α :=
  list.foldl (fun map entry => map.insert entry.1 entry.2) empty

theorem lookup_insertSorted_self {key : String} {value : α} {list : List (String × α)} :
    (insertSorted key value list).lookup key = some value := by
  induction list with
  | nil => simp [insertSorted]
  | cons head tail ih =>
      unfold insertSorted
      split
      · simp
      · split
        · simp
        · rename_i hNe
          rw [List.lookup_cons, beq_false_of_ne hNe]
          exact ih

theorem lookup_insertSorted_ne {key other : String} {value : α} {list : List (String × α)}
    (hNe : other ≠ key) : (insertSorted key value list).lookup other = list.lookup other := by
  induction list with
  | nil => simp [insertSorted, List.lookup_cons, beq_false_of_ne hNe]
  | cons head tail ih =>
      unfold insertSorted
      split
      · rw [List.lookup_cons, beq_false_of_ne hNe]
      · split
        · rename_i hEq
          rw [List.lookup_cons, List.lookup_cons, beq_false_of_ne hNe, ← hEq,
            beq_false_of_ne hNe]
        · rw [List.lookup_cons, List.lookup_cons, ih]

@[simp] theorem get?_empty {key : String} : (empty : KeyMap α).get? key = none := rfl

@[simp] theorem get?_insert_self {map : KeyMap α} {key : String} {value : α} :
    (map.insert key value).get? key = some value := lookup_insertSorted_self

theorem get?_insert_ne {map : KeyMap α} {key other : String} {value : α} (hNe : other ≠ key) :
    (map.insert key value).get? other = map.get? other := lookup_insertSorted_ne hNe

theorem get?_insert {map : KeyMap α} {key other : String} {value : α} :
    (map.insert key value).get? other = if other = key then some value else map.get? other := by
  split
  · rename_i hEq
    rw [hEq, get?_insert_self]
  · rename_i hNe
    exact get?_insert_ne hNe

theorem lookup_filter {list : List (String × α)} {test : String → Bool} {key : String} :
    (list.filter fun entry => test entry.1).lookup key =
      if test key then list.lookup key else none := by
  induction list with
  | nil => simp
  | cons head tail ih =>
      obtain ⟨headKey, value⟩ := head
      by_cases hKey : key = headKey
      · subst hKey
        by_cases hTest : test key = true
        · simp [hTest]
        · simpa [hTest] using ih
      · rw [List.lookup_cons, beq_false_of_ne hKey, List.filter_cons]
        split
        · rw [List.lookup_cons, beq_false_of_ne hKey, ih]
        · exact ih

theorem get?_filterKeys {map : KeyMap α} {test : String → Bool} {key : String} :
    (map.filterKeys test).get? key = if test key then map.get? key else none := lookup_filter

@[simp] theorem get?_erase_self {map : KeyMap α} {key : String} :
    (map.erase key).get? key = none := by
  simp [erase, get?_filterKeys]

theorem get?_erase_ne {map : KeyMap α} {key other : String} (hNe : other ≠ key) :
    (map.erase key).get? other = map.get? other := by
  simp [erase, get?_filterKeys, hNe]

theorem lookup_eq_some_iff {list : List (String × α)} {key : String} {value : α}
    (hSorted : list.Pairwise fun left right => left.1 < right.1) :
    list.lookup key = some value ↔ (key, value) ∈ list := by
  induction list with
  | nil => simp
  | cons head tail ih =>
      obtain ⟨headKey, headValue⟩ := head
      rw [List.pairwise_cons] at hSorted
      rw [List.lookup_cons, List.mem_cons]
      by_cases hKey : key = headKey
      · subst hKey
        have hAbsent : (key, value) ∉ tail := fun hMem =>
          String.lt_irrefl key (hSorted.1 _ hMem)
        simp [hAbsent, eq_comm]
      · simp [beq_false_of_ne hKey, hKey, ih hSorted.2]

theorem get?_eq_some_iff {map : KeyMap α} {key : String} {value : α} :
    map.get? key = some value ↔ (key, value) ∈ map.entries := lookup_eq_some_iff map.sorted

theorem mem_keys {map : KeyMap α} {key : String} :
    key ∈ map.keys ↔ (map.get? key).isSome = true := by
  rw [Option.isSome_iff_exists]
  simp only [get?_eq_some_iff]
  show key ∈ map.entries.map (·.1) ↔ _
  simp

/-- A map is determined by its look-ups. -/
theorem ext_get? {left right : KeyMap α} (h : ∀ key, left.get? key = right.get? key) :
    left = right := by
  have hNodup : ∀ map : KeyMap α, map.entries.Nodup := by
    intro map
    refine map.sorted.imp ?_
    rintro entry other hLt rfl
    exact String.lt_irrefl entry.1 hLt
  have hMem : ∀ entry, entry ∈ left.entries ↔ entry ∈ right.entries := by
    rintro ⟨key, value⟩
    rw [← get?_eq_some_iff, ← get?_eq_some_iff, h]
  have hPerm : left.entries.Perm right.entries :=
    (List.perm_ext_iff_of_nodup (hNodup left) (hNodup right)).mpr hMem
  have hEq : left.entries = right.entries :=
    hPerm.eq_of_pairwise (fun a b _ _ hab hba => absurd hba (String.lt_asymm hab))
      left.sorted right.sorted
  cases left
  cases right
  cases hEq
  rfl

@[simp] theorem contains_iff {map : KeyMap α} {key : String} :
    map.contains key = true ↔ key ∈ map.keys := mem_keys.symm

theorem mem_keys_iff {map : KeyMap α} {key : String} :
    key ∈ map.keys ↔ ∃ value, map.get? key = some value := by
  rw [mem_keys, Option.isSome_iff_exists]

theorem get?_eq_none {map : KeyMap α} {key : String} (hFresh : ¬ key ∈ map.keys) :
    map.get? key = none :=
  Option.eq_none_iff_forall_ne_some.mpr fun value hGet => hFresh (mem_keys_iff.mpr ⟨value, hGet⟩)

/-- Writing an entry adds its key. -/
theorem keys_insert {map : KeyMap α} {key : String} {value : α} :
    (map.insert key value).keys = map.keys.insert key := by
  refine KeySet.ext fun other => ?_
  rw [KeySet.mem_insert, mem_keys, mem_keys, get?_insert]
  by_cases hKey : other = key <;> simp [hKey]

/-- An entry beyond the last key goes to the end. -/
theorem insertSorted_of_lt {key : String} {value : α} {list : List (String × α)}
    (hLast : ∀ entry ∈ list, entry.1 < key) :
    insertSorted key value list = list ++ [(key, value)] := by
  induction list with
  | nil => rfl
  | cons head tail ih =>
      have hHead : head.1 < key := hLast head (List.mem_cons_self ..)
      rw [insertSorted, if_neg (String.lt_asymm hHead), if_neg]
      · rw [ih fun entry hEntry => hLast entry (List.mem_cons_of_mem _ hEntry), List.cons_append]
      · rintro rfl
        exact String.lt_irrefl _ hHead

/-- Entries by increasing key, written one after another, follow those that were there. -/
theorem entries_foldl_insert {list : List (String × α)} {map : KeyMap α}
    (hSorted : (map.entries ++ list).Pairwise fun left right => left.1 < right.1) :
    (list.foldl (fun map entry => map.insert entry.1 entry.2) map).entries
      = map.entries ++ list := by
  induction list generalizing map with
  | nil => exact (List.append_nil _).symm
  | cons head tail ih =>
      have hLast : ∀ entry ∈ map.entries, entry.1 < head.1 := fun entry hEntry =>
        (List.pairwise_append.mp hSorted).2.2 entry hEntry head (List.mem_cons_self ..)
      have hInsert : (map.insert head.1 head.2).entries = map.entries ++ [head] :=
        insertSorted_of_lt hLast
      rw [List.foldl_cons, ih, hInsert, List.append_assoc, List.singleton_append]
      rwa [hInsert, List.append_assoc, List.singleton_append]

/-- Entries that agree with a map make a map that agrees with it under each of their keys. -/
theorem get?_foldl_insert {list : List (String × α)} {map start : KeyMap α} {key : String}
    (hAgree : ∀ entry ∈ list, map.get? entry.1 = some entry.2) :
    (list.foldl (fun map entry => map.insert entry.1 entry.2) start).get? key =
      if key ∈ list.map (·.1) then map.get? key else start.get? key := by
  induction list generalizing start with
  | nil => simp
  | cons head tail ih =>
      rw [List.foldl_cons, ih fun entry hEntry => hAgree entry (List.mem_cons_of_mem _ hEntry),
        get?_insert, List.map_cons]
      by_cases hHead : key = head.1
      · subst hHead
        simp [hAgree head (List.mem_cons_self ..)]
      · by_cases hTail : key ∈ tail.map (·.1)
        · rw [if_pos hTail, if_pos (List.mem_cons_of_mem _ hTail)]
        · have hCons : ¬ key ∈ head.1 :: tail.map (·.1) := fun hMem =>
            (List.mem_cons.mp hMem).elim hHead hTail
          rw [if_neg hTail, if_neg hHead, if_neg hCons]

/-- A list of entries of a map that holds all entries under a key agrees with the map there. -/
theorem get?_ofList_of_agree {list : List (String × α)} {map : KeyMap α} {key : String}
    (hAgree : ∀ entry ∈ list, map.get? entry.1 = some entry.2)
    (hAll : ∀ value, map.get? key = some value → (key, value) ∈ list) :
    (ofList list).get? key = map.get? key := by
  rw [ofList, get?_foldl_insert hAgree]
  by_cases hKey : key ∈ list.map (·.1)
  · rw [if_pos hKey]
  · rw [if_neg hKey, get?_empty]
    cases hGet : map.get? key with
    | none => rfl
    | some value => exact absurd (List.mem_map_of_mem (hAll value hGet)) hKey

/-- A map is made of its entries. -/
theorem ofList_entries {map : KeyMap α} : ofList map.entries = map := by
  have hEntries : (ofList map.entries).entries = map.entries :=
    @entries_foldl_insert α map.entries empty map.sorted
  cases map
  cases hMap : ofList _
  rw [hMap] at hEntries
  cases hEntries
  rfl

/-- Filtering out a key that has a value makes the map smaller. -/
theorem size_filterKeys_lt {map : KeyMap α} {test : String → Bool} {entry : String × α}
    (hMem : entry ∈ map.entries) (hTest : ¬ test entry.1 = true) :
    (map.filterKeys test).size < map.size :=
  List.length_filter_lt_length_iff_exists.mpr ⟨entry, hMem, hTest⟩

end KeyMap

end CatalogSync
