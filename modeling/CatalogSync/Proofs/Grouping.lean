import CatalogSync.Proofs.Replaying

/-!
# Arranged lists in groups

A list arranged by keys is read off the list itself: the elements of each listed key in turn, a
repeated key at its first place, then the elements whose keys are not listed. Within a group nothing
moves. The plain list ranks an entry by the last place of its key, which makes no difference as long
as no key is repeated.

## Main results

* `arrange_eq_grouped`: the arranged list is the list in groups.
* `arrange_groups`: nothing is lost, the groups stand in order, and the plain list reorders alike.
-/

namespace CatalogSync.KeyedList

variable {ε : Type} {key : ε → String} {keys : List String} {list : List ε}

/-- The elements of each listed key in turn, a repeated key at its first place, then the others. -/
def grouped (key : ε → String) (keys : List String) (list : List ε) : List ε :=
  keys.eraseDups.flatMap (fun name => list.filter fun element => key element == name) ++
    list.filter fun element => !keys.contains (key element)

/-! ## Placing one element -/

/-- An element whose rank is least is placed in front. -/
theorem insertByRank_of_least {rank : ε → Nat} {element : ε}
    (hLeast : ∀ other ∈ list, rank element ≤ rank other) :
    insertByRank rank element list = element :: list := by
  cases list with
  | nil => rfl
  | cons head tail => rw [insertByRank, if_pos (hLeast head (List.mem_cons_self ..))]

/-- An element passes those of smaller rank that stand in front. -/
theorem insertByRank_append {rank : ε → Nat} {element : ε} {front back : List ε}
    (hFront : ∀ other ∈ front, rank other < rank element) :
    insertByRank rank element (front ++ back) = front ++ insertByRank rank element back := by
  induction front with
  | nil => rfl
  | cons head tail ih =>
      have hHead : ¬ rank element ≤ rank head :=
        Nat.not_le_of_lt (hFront head (List.mem_cons_self ..))
      rw [List.cons_append, insertByRank, if_neg hHead,
        ih fun other hOther => hFront other (List.mem_cons_of_mem _ hOther), List.cons_append]

/-- Ranks that compare alike place an element alike. -/
theorem insertByRank_congr (rank rank' : ε → Nat) {element : ε}
    (hAlike : ∀ other ∈ list, rank element ≤ rank other ↔ rank' element ≤ rank' other) :
    insertByRank rank element list = insertByRank rank' element list := by
  induction list with
  | nil => rfl
  | cons head tail ih =>
      have hHead := hAlike head (List.mem_cons_self ..)
      rw [insertByRank, insertByRank,
        ih fun other hOther => hAlike other (List.mem_cons_of_mem _ hOther)]
      simp only [hHead]

/-! ## One key after the other -/

/-- Without keys there is nothing to arrange. -/
theorem arrange_nil : arrange key [] list = list := by
  induction list with
  | nil => rfl
  | cons head tail ih =>
      show insertByRank _ head (arrange key [] tail) = head :: tail
      rw [ih]
      exact insertByRank_of_least fun _ _ => Nat.le_refl _

/-- The elements of the first key come first, the others are arranged by the remaining keys. -/
theorem arrange_cons {first : String} :
    arrange key (first :: keys) list =
      list.filter (fun element => key element == first) ++
        arrange key keys (list.filter fun element => key element != first) := by
  have hFirst {element : ε} (hKey : key element = first) :
      (first :: keys).idxOf (key element) = 0 := by rw [hKey, List.idxOf_cons_self]
  have hLater {element : ε} (hKey : key element ≠ first) :
      (first :: keys).idxOf (key element) = keys.idxOf (key element) + 1 :=
    List.idxOf_cons_ne _ (Ne.symm hKey)
  induction list with
  | nil => rfl
  | cons head tail ih =>
      show insertByRank _ head (arrange key (first :: keys) tail) = _
      rw [ih]
      by_cases hHead : key head = first
      · rw [insertByRank_of_least fun _ _ => hFirst hHead ▸ Nat.zero_le _]
        simp [hHead]
      · -- The element passes the group of the first key; the rest ranks it one place lower.
        have hGroup : ∀ other ∈ tail.filter (fun element => key element == first),
            (first :: keys).idxOf (key other) < (first :: keys).idxOf (key head) := by
          intro other hOther
          have hKey : key other = first := by simpa using (List.mem_filter.mp hOther).2
          rw [hLater hHead, hFirst hKey]
          exact Nat.succ_pos _
        have hRest : ∀ other ∈ arrange key keys (tail.filter fun element => key element != first),
            (first :: keys).idxOf (key head) ≤ (first :: keys).idxOf (key other) ↔
              keys.idxOf (key head) ≤ keys.idxOf (key other) := by
          intro other hOther
          have hMem := arrangeBy_perm.mem_iff.mp hOther
          have hKey : key other ≠ first := by simpa using (List.mem_filter.mp hMem).2
          rw [hLater hHead, hLater hKey]
          exact Nat.add_le_add_iff_right
        rw [insertByRank_append hGroup,
          insertByRank_congr _ (fun element => keys.idxOf (key element)) hRest, List.filter_cons,
          List.filter_cons, if_neg (by simp [hHead]), if_pos (by simp [hHead])]
        rfl

/-! ## Groups -/

/-- Leaving out repetitions and leaving out what fails a test can be done in either order. -/
theorem eraseDups_filter (test : String → Bool) (names : List String) :
    (names.filter test).eraseDups = names.eraseDups.filter test := by
  cases names with
  | nil => rfl
  | cons head tail =>
      have hRest := eraseDups_filter test (tail.filter fun name => !name == head)
      rw [List.eraseDups_cons, List.filter_cons, List.filter_cons, ← hRest, List.filter_comm]
      split
      · rw [List.eraseDups_cons]
      · rename_i hHead
        refine congrArg List.eraseDups (List.filter_eq_self.mpr fun name hName => ?_).symm
        have hTest := (List.mem_filter.mp hName).2
        have hApart : name ≠ head := fun hSame => hHead (hSame ▸ hTest)
        simpa using hApart
termination_by names.length
decreasing_by exact Nat.lt_succ_of_le (List.length_filter_le _ _)

/-- Without the elements of a key its group is empty and the other groups are as they were. -/
theorem flatMap_groups_without (first : String) (names : List String) :
    names.flatMap (fun name => (list.filter fun element => key element != first).filter
        fun element => key element == name) =
      (names.filter fun name => !name == first).flatMap fun name =>
        list.filter fun element => key element == name := by
  induction names with
  | nil => rfl
  | cons name rest ih =>
      rw [List.flatMap_cons, ih, List.filter_filter, List.filter_cons]
      by_cases hFirst : name = first
      · have hEmpty : list.filter (fun element =>
            key element == name && key element != first) = [] :=
          List.filter_eq_nil_iff.mpr fun element _ => by simp [hFirst]
        rw [hEmpty, List.nil_append, if_neg (by simp [hFirst])]
      · have hSame : list.filter (fun element => key element == name && key element != first) =
            list.filter fun element => key element == name := by
          refine List.filter_congr fun element _ => ?_
          by_cases hKey : key element = name <;> simp [hKey, hFirst]
        rw [hSame, if_pos (by simp [hFirst]), List.flatMap_cons]

/-- The group of the first key, and the groups of the others without its elements. -/
theorem grouped_cons {first : String} :
    grouped key (first :: keys) list =
      list.filter (fun element => key element == first) ++
        grouped key keys (list.filter fun element => key element != first) := by
  have hRest : (list.filter fun element => key element != first).filter
      (fun element => !keys.contains (key element)) =
        list.filter fun element => !(first :: keys).contains (key element) := by
    rw [List.filter_filter]
    refine List.filter_congr fun element _ => ?_
    rw [List.contains_cons, Bool.not_or, Bool.and_comm]
    rfl
  rw [grouped, grouped, List.eraseDups_cons, List.flatMap_cons, List.append_assoc, hRest,
    flatMap_groups_without, eraseDups_filter]

/-- Arranging a list by keys puts it into groups. -/
theorem arrange_eq_grouped : arrange key keys list = grouped key keys list := by
  induction keys generalizing list with
  | nil => simp [arrange_nil, grouped]
  | cons first rest ih => rw [arrange_cons, grouped_cons, ih]

/--
Arranging a list by keys, repeated and unknown ones included, yields a permutation of the list: the
elements of the listed keys in the order of the keys' first places, then the others, with equal
keys, and elements that are not listed, in their order. The plain list comes into the same order
by an edit whose keys are not repeated.
-/
theorem arrange_groups (key : ε → String) (keys : List String) (list : List ε) :
    (arrange key keys list).Perm list ∧
    arrange key keys list = grouped key keys list ∧
    ∀ (placement : Placement) (entries : List Entry), keys.Nodup →
      replay placement entries [.reorder keys] = arrange Entry.key keys entries := by
  refine ⟨arrangeBy_perm, arrange_eq_grouped, fun placement entries hNodup => ?_⟩
  show arrangeBy (fun entry => lastRank keys entry.key) entries = _
  exact congrArg (arrangeBy · entries) (funext fun entry => lastRank_eq_idxOf hNodup entry.key)

theorem arrange_groups_sizes :
    let keys := ["m", "s", "x"]
    let entries : List Entry := [⟨"s", 1⟩, ⟨"l", 2⟩, ⟨"m", 3⟩, ⟨"s", 4⟩, ⟨"k", 5⟩]
    let reordered : List Entry := [⟨"m", 3⟩, ⟨"s", 1⟩, ⟨"s", 4⟩, ⟨"l", 2⟩, ⟨"k", 5⟩]
    keys.Nodup ∧ grouped Entry.key keys entries = reordered ∧
      arrange Entry.key keys entries = reordered ∧
      replay .append entries [.reorder keys] = reordered := by
  intro keys entries reordered
  have hNodup : keys.Nodup := by decide
  have hGrouped : grouped Entry.key keys entries = reordered := by decide
  obtain ⟨-, hGroups, hReplay⟩ := arrange_groups Entry.key keys entries
  have hArranged := hGroups.trans hGrouped
  exact ⟨hNodup, hGrouped, hArranged, (hReplay .append entries hNodup).trans hArranged⟩

/-- The plain list takes a repeated key at its last place, an arranged list at its first. -/
example :
    let keys := ["s", "m", "s"]
    let entries : List Entry := [⟨"m", 1⟩, ⟨"s", 2⟩]
    arrange Entry.key keys entries = [⟨"s", 2⟩, ⟨"m", 1⟩] ∧
      replay .append entries [.reorder keys] = [⟨"m", 1⟩, ⟨"s", 2⟩] := by
  decide

end CatalogSync.KeyedList
