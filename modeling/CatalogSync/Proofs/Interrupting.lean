import CatalogSync.Proofs.Replaying

/-!
# Reconciliations that are interrupted

The edits of a reconciliation reach the remote one after the other, so others see the lists in
between, and the remote may be left with one of them. None of these lists holds a key twice or lacks
an entry that is to stay, and everything that stands in front of an added entry in the new list is
there before it.

## Main results

* `Underway.perform`, `Underway.replay`: what one edit keeps, and what any number of them keep.
* `EditPolicy.underway`: a reconciliation starts well.
* `EditPolicy.reconcile_interrupted`: a reconciliation leaves a safe list wherever it is interrupted.
-/

namespace CatalogSync.KeyedList

/-! ## What edits add and remove -/

namespace Edit

/-- The key of the entry that an edit adds. -/
def added? : Edit → Option String
  | .add entry _ => some entry.key
  | _ => none

/-- The keys of the entries that an edit removes. -/
def removed : Edit → List String
  | .remove keys => keys
  | _ => []

end Edit

/-- When an entry is to be added, the keys in front of its position are there already. -/
def Ahead (new : List String) : List String → List Edit → Prop
  | _, [] => True
  | present, .add entry position :: rest =>
      (position ≤ new.length ∧ ∀ key ∈ new.take position, key ∈ present) ∧
        Ahead new (entry.key :: present) rest
  | present, _ :: rest => Ahead new present rest

/-- A list of keys is on its way from an old one to a new one, with some edits left to be made. -/
structure Underway (old new list : List String) (rest : List Edit) : Prop where
  /-- No key is there twice, and none that is still to be added is there. -/
  distinct : (list ++ rest.filterMap Edit.added?).Nodup
  shared : ∀ key ∈ old, key ∈ new → key ∈ list
  known : ∀ key ∈ list, key ∈ old ∨ key ∈ new
  adds : ∀ key ∈ rest.filterMap Edit.added?, key ∈ new
  removes : ∀ key ∈ rest.flatMap Edit.removed, key ∉ new
  ahead : Ahead new list rest

variable {old new present more : List String} {list : List Entry} {front rest edits : List Edit}
  {edit : Edit} {placement : Placement}

/-- More keys do no harm. -/
theorem Ahead.mono (hAhead : Ahead new present rest)
    (hMore : ∀ key ∈ new, key ∈ present → key ∈ more) : Ahead new more rest := by
  induction rest generalizing present more with
  | nil => trivial
  | cons edit rest ih =>
      cases edit with
      | add entry position =>
          obtain ⟨⟨hInside, hFront⟩, hRest⟩ := hAhead
          refine ⟨⟨hInside, fun key hKey => ?_⟩, ih hRest fun key hNew hKey => ?_⟩
          · exact hMore key (List.mem_of_mem_take hKey) (hFront key hKey)
          · rcases List.mem_cons.mp hKey with rfl | hKey
            · exact List.mem_cons_self ..
            · exact List.mem_cons_of_mem _ (hMore key hNew hKey)
      | _ => exact ih hAhead hMore

/-- Edits that add nothing need nothing to be there. -/
theorem Ahead.append_of_adds_nothing (hFront : ∀ edit ∈ front, edit.added? = none)
    (hAhead : Ahead new present rest) : Ahead new present (front ++ rest) := by
  induction front with
  | nil => exact hAhead
  | cons edit front ih =>
      have hRest := ih fun other hOther => hFront other (List.mem_cons_of_mem _ hOther)
      cases edit with
      | add entry position => cases hFront _ (List.mem_cons_self ..)
      | _ => exact hRest

/-! ## One edit -/

/-- Where an entry is added makes no difference to which entries are there. -/
theorem perform_add_perm {entry : Entry} {position : Nat} :
    (Edit.perform placement list (.add entry position)).Perm (entry :: list) :=
  @Policy.place_perm Entry Edit (EditPolicy.mk placement false false).policy list entry position

theorem map_key_modifyFirst {test : Entry → Bool} {value : UInt8} :
    (modifyFirst test (fun entry => { entry with value }) list).map Entry.key =
      list.map Entry.key := by
  induction list with
  | nil => rfl
  | cons entry rest ih =>
      unfold modifyFirst
      split
      · rfl
      · rw [List.map_cons, List.map_cons, ih]

/-- A list that holds the same keys is as far on its way. -/
theorem Underway.of_perm (hUnderway : Underway old new present rest) (hPerm : more.Perm present) :
    Underway old new more rest where
  distinct := (hPerm.append_right _).nodup_iff.mpr hUnderway.distinct
  shared key hOld hNew := hPerm.mem_iff.mpr (hUnderway.shared key hOld hNew)
  known key hKey := hUnderway.known key (hPerm.mem_iff.mp hKey)
  adds := hUnderway.adds
  removes := hUnderway.removes
  ahead := hUnderway.ahead.mono fun _ _ hKey => hPerm.mem_iff.mpr hKey

/-- An entry that is to be added may be added. -/
theorem Underway.add {entry : Entry} {position : Nat}
    (hUnderway : Underway old new present (.add entry position :: rest)) :
    Underway old new (entry.key :: present) rest where
  distinct := List.perm_middle.nodup_iff.mp hUnderway.distinct
  shared key hOld hNew := List.mem_cons_of_mem _ (hUnderway.shared key hOld hNew)
  known key hKey := by
    rcases List.mem_cons.mp hKey with rfl | hKey
    · exact Or.inr (hUnderway.adds _ (List.mem_cons_self ..))
    · exact hUnderway.known key hKey
  adds key hKey := hUnderway.adds key (List.mem_cons_of_mem _ hKey)
  removes := hUnderway.removes
  ahead := hUnderway.ahead.2

/-- An edit that adds nothing may be left out. -/
theorem Underway.tail (hUnderway : Underway old new present (edit :: rest))
    (hNothing : edit.added? = none) : Underway old new present rest := by
  cases edit with
  | add entry position => cases hNothing
  | _ =>
      refine ⟨hUnderway.distinct, hUnderway.shared, hUnderway.known, hUnderway.adds, ?_,
        hUnderway.ahead⟩
      exact fun key hKey => hUnderway.removes key (List.mem_append_right _ hKey)

/-- Keys that are not new may go. -/
theorem Underway.filter {test : String → Bool} (hUnderway : Underway old new present rest)
    (hStays : ∀ key ∈ new, test key = true) : Underway old new (present.filter test) rest where
  distinct := hUnderway.distinct.sublist (List.filter_sublist.append_right _)
  shared key hOld hNew :=
    List.mem_filter.mpr ⟨hUnderway.shared key hOld hNew, hStays key hNew⟩
  known key hKey := hUnderway.known key (List.mem_filter.mp hKey).1
  adds := hUnderway.adds
  removes := hUnderway.removes
  ahead := hUnderway.ahead.mono fun key hNew hKey => List.mem_filter.mpr ⟨hKey, hStays key hNew⟩

/-- Each edit brings a list further on its way. -/
theorem Underway.perform (hUnderway : Underway old new (list.map Entry.key) (edit :: rest)) :
    Underway old new ((edit.perform placement list).map Entry.key) rest := by
  cases edit with
  | remove keys =>
      have hStays : ∀ key ∈ new, (!keys.contains key) = true := by
        intro key hNew
        have hNamed : key ∉ keys := fun hMem =>
          hUnderway.removes key (List.mem_append_left _ hMem) hNew
        simpa using hNamed
      have hGone := (hUnderway.tail rfl).filter hStays
      rwa [List.filter_map] at hGone
  | add entry position => exact hUnderway.add.of_perm (perform_add_perm.map _)
  | setValue key value =>
      rw [Edit.perform, map_key_modifyFirst]
      exact hUnderway.tail rfl
  | reorder keys => exact (hUnderway.tail rfl).of_perm (arrangeBy_perm.map _)

/-- Any number of edits brings a list further on its way. -/
theorem Underway.replay {done : List Edit}
    (hUnderway : Underway old new (list.map Entry.key) (done ++ rest)) :
    Underway old new ((replay placement list done).map Entry.key) rest := by
  induction done generalizing list with
  | nil => exact hUnderway
  | cons edit done ih => exact ih hUnderway.perform

/-- The position of an entry that is added next is inside of the list, or at its end. -/
theorem Underway.position_le {entry : Entry} {position : Nat} (hNew : new.Nodup)
    (hUnderway : Underway old new present (.add entry position :: rest)) :
    position ≤ present.length := by
  -- The keys in front of it are different ones, so there are no more of them than keys present.
  obtain ⟨⟨hInside, hFront⟩, -⟩ := hUnderway.ahead
  have hLength := (List.subperm_of_subset (hNew.sublist (List.take_sublist position new))
    hFront).length_le
  rwa [List.length_take_of_le hInside] at hLength

/-! ## The additions one by one -/

namespace Policy

variable {ε α : Type} {policy : Policy ε α} {old rest : List ε} {element : ε} {position : Nat}

/-- The additions for elements that stand behind a number of others in the new list. -/
def additionsFrom (policy : Policy ε α) (old : List ε) (position : Nat) (list : List ε) : List α :=
  (list.zipIdx position).filterMap fun (element, position) =>
    if (policy.keys old).contains (policy.key element) then none
    else some (policy.add element position)

theorem additionsFrom_of_mem (hOld : policy.key element ∈ policy.keys old) :
    policy.additionsFrom old position (element :: rest) =
      policy.additionsFrom old (position + 1) rest :=
  List.filterMap_cons_none (if_pos (List.contains_iff_mem.mpr hOld))

theorem additionsFrom_of_not_mem (hOld : policy.key element ∉ policy.keys old) :
    policy.additionsFrom old position (element :: rest) =
      policy.add element position :: policy.additionsFrom old (position + 1) rest :=
  List.filterMap_cons_some (if_neg (by simpa using hOld))

end Policy

namespace EditPolicy

variable {policy : EditPolicy} {old new : List Entry} {edits : List Edit} {edit : Edit}

/-! ## The edits of a reconciliation -/

/-- The first phase removes entries whose keys are not new. -/
theorem eq_remove_of_mem_removals (hEdit : edit ∈ policy.policy.removals old new) :
    ∃ keys, edit = .remove keys ∧ ∀ key ∈ keys, key ∉ new.map Entry.key := by
  have hGone : ∀ entry ∈ policy.policy.missingFrom new old, entry.key ∉ new.map Entry.key :=
    fun entry hEntry => (Policy.mem_missingFrom.mp hEntry).2
  have hRemoved : edit ∈ policy.remove (policy.policy.missingFrom new old) := by
    unfold Policy.removals at hEdit
    split at hEdit
    · cases hEdit
    · exact hEdit
  unfold remove at hRemoved
  split at hRemoved
  · cases hRemoved
  split at hRemoved
  · refine ⟨_, List.mem_singleton.mp hRemoved, fun key hKey => ?_⟩
    obtain ⟨entry, hEntry, rfl⟩ := List.mem_map.mp hKey
    exact hGone entry hEntry
  · obtain ⟨entry, hEntry, rfl⟩ := List.mem_map.mp hRemoved
    refine ⟨_, rfl, fun key hKey => ?_⟩
    rw [List.mem_singleton.mp hKey]
    exact hGone entry hEntry

/-- The third phase sets values. -/
theorem eq_setValue_of_mem_changes (hChanges : policy.policy.changes old new = .ok edits)
    (hEdit : edit ∈ edits) : ∃ key value, edit = .setValue key value := by
  induction new generalizing edits with
  | nil =>
      cases hChanges
      cases hEdit
  | cons after rest ih =>
      obtain ⟨first, others, hOthers, rfl, hFirst⟩ := Policy.of_changes_cons hChanges
      rcases List.mem_append.mp hEdit with hEdit | hEdit
      · rcases hFirst with ⟨-, rfl⟩ | ⟨before, -, hChange⟩
        · cases hEdit
        · cases hChange
          unfold change at hEdit
          split at hEdit
          · cases hEdit
          · exact ⟨_, _, List.mem_singleton.mp hEdit⟩
      · exact ih hOthers hEdit

/-- The last phase reorders. -/
theorem eq_reorder_of_mem_reordering (hEdit : edit ∈ policy.policy.reordering old new) :
    ∃ keys, edit = .reorder keys := by
  unfold Policy.reordering at hEdit
  split at hEdit
  · exact ⟨_, List.mem_singleton.mp hEdit⟩
  · cases hEdit

/-- The second phase adds the entries that the old list lacks, -/
theorem added_additions : (policy.policy.additions old new).filterMap Edit.added? =
    (policy.policy.missingFrom old new).map Entry.key := by
  show (policy.policy.additionsFrom old 0 new).filterMap Edit.added? = _
  unfold Policy.missingFrom
  generalize 0 = position
  induction new generalizing position with
  | nil => rfl
  | cons entry rest ih =>
      by_cases hOld : policy.policy.key entry ∈ policy.policy.keys old
      · rw [Policy.additionsFrom_of_mem hOld, List.filter_cons_of_neg (by simpa using hOld), ih]
      · rw [Policy.additionsFrom_of_not_mem hOld, List.filter_cons_of_pos (by simpa using hOld),
          List.map_cons, ← ih (position + 1)]
        rfl

/-- and it removes nothing. -/
theorem removed_of_mem_additions (hEdit : edit ∈ policy.policy.additions old new) :
    edit.removed = [] := by
  obtain ⟨⟨entry, position⟩, -, hSome⟩ := List.mem_filterMap.mp hEdit
  dsimp only at hSome
  split at hSome
  · cases hSome
  · cases hSome
    rfl

/-- An entry is added once those in front of it are there. -/
theorem ahead_additionsFrom (hNothing : ∀ edit ∈ edits, edit.added? = none) {rest : List Entry}
    (done : List Entry) (hSplit : new = done ++ rest) {present : List String}
    (hOld : ∀ key ∈ old.map Entry.key, key ∈ present)
    (hDone : ∀ key ∈ done.map Entry.key, key ∈ present) :
    Ahead (new.map Entry.key) present
      (policy.policy.additionsFrom old done.length rest ++ edits) := by
  induction rest generalizing done present with
  | nil =>
      have hEmpty : Ahead (new.map Entry.key) present [] := trivial
      have hEdits := Ahead.append_of_adds_nothing hNothing hEmpty
      rwa [List.append_nil] at hEdits
  | cons entry rest ih =>
      have hNext (present : List String) (hOld : ∀ key ∈ old.map Entry.key, key ∈ present)
          (hDone : ∀ key ∈ done.map Entry.key, key ∈ present) (hEntry : entry.key ∈ present) :
          Ahead (new.map Entry.key) present
            (policy.policy.additionsFrom old (done.length + 1) rest ++ edits) := by
        have hAhead := @ih (done ++ [entry]) (by rw [hSplit, List.append_cons]) present hOld
        rw [List.length_append, List.length_singleton] at hAhead
        refine hAhead fun key hKey => ?_
        rw [List.map_append] at hKey
        rcases List.mem_append.mp hKey with hKey | hKey
        · exact hDone key hKey
        · rwa [List.mem_singleton.mp hKey]
      -- A shared entry is there without being added; any other one is there from now on.
      by_cases hShared : policy.policy.key entry ∈ policy.policy.keys old
      · rw [Policy.additionsFrom_of_mem hShared]
        exact hNext present hOld hDone (hOld _ hShared)
      · rw [Policy.additionsFrom_of_not_mem hShared]
        refine ⟨⟨?_, fun key hKey => hDone key ?_⟩, hNext _ ?_ ?_ (List.mem_cons_self ..)⟩
        · rw [hSplit, List.length_map, List.length_append]
          exact Nat.le_add_right ..
        · rwa [hSplit, List.map_append, List.take_left' (List.length_map _)] at hKey
        · exact fun key hKey => List.mem_cons_of_mem _ (hOld key hKey)
        · exact fun key hKey => List.mem_cons_of_mem _ (hDone key hKey)

/-- The edits of a reconciliation: removals of what is not new, the additions, and edits that neither
add nor remove anything. -/
theorem phases_of_reconcile (hOk : policy.policy.reconcile old (some new) = .ok edits) :
    ∃ removals others, edits = removals ++ (policy.policy.additions old new ++ others) ∧
      (∀ edit ∈ removals, edit.added? = none ∧ ∀ key ∈ edit.removed, key ∉ new.map Entry.key) ∧
      ∀ edit ∈ others, edit.added? = none ∧ edit.removed = [] := by
  obtain ⟨-, -, changed, hChanges, rfl⟩ := Policy.reconcile_eq_ok_iff.mp hOk
  refine ⟨policy.policy.removals old new, changed ++ policy.policy.reordering old new,
    by simp only [List.append_assoc], fun edit hEdit => ?_, fun edit hEdit => ?_⟩
  · obtain ⟨keys, rfl, hGone⟩ := eq_remove_of_mem_removals hEdit
    exact ⟨rfl, hGone⟩
  · rcases List.mem_append.mp hEdit with hEdit | hEdit
    · obtain ⟨key, value, rfl⟩ := eq_setValue_of_mem_changes hChanges hEdit
      exact ⟨rfl, rfl⟩
    · obtain ⟨keys, rfl⟩ := eq_reorder_of_mem_reordering hEdit
      exact ⟨rfl, rfl⟩

/-- All edits of a reconciliation together add the entries that the old list lacks, -/
theorem added_reconcile (hOk : policy.policy.reconcile old (some new) = .ok edits) :
    edits.filterMap Edit.added? = (policy.policy.missingFrom old new).map Entry.key := by
  obtain ⟨removals, others, rfl, hRemovals, hOthers⟩ := phases_of_reconcile hOk
  rw [List.filterMap_append, List.filterMap_append, added_additions,
    List.filterMap_eq_nil_iff.mpr fun edit hEdit => (hRemovals edit hEdit).1,
    List.filterMap_eq_nil_iff.mpr fun edit hEdit => (hOthers edit hEdit).1, List.append_nil,
    List.nil_append]

/-- and none of those that they remove is new. -/
theorem not_mem_of_removed (hOk : policy.policy.reconcile old (some new) = .ok edits)
    {key : String} (hKey : key ∈ edits.flatMap Edit.removed) : key ∉ new.map Entry.key := by
  obtain ⟨removals, others, rfl, hRemovals, hOthers⟩ := phases_of_reconcile hOk
  obtain ⟨edit, hEdit, hKey⟩ := List.mem_flatMap.mp hKey
  rcases List.mem_append.mp hEdit with hEdit | hEdit
  · exact (hRemovals edit hEdit).2 key hKey
  rcases List.mem_append.mp hEdit with hEdit | hEdit
  · rw [removed_of_mem_additions hEdit] at hKey
    cases hKey
  · rw [(hOthers edit hEdit).2] at hKey
    cases hKey

/-- A reconciliation starts with all of its edits left to be made. -/
theorem underway (hOk : policy.policy.reconcile old (some new) = .ok edits) :
    Underway (old.map Entry.key) (new.map Entry.key) (old.map Entry.key) edits where
  distinct := by
    obtain ⟨hOld, hNew, -⟩ := Policy.reconcile_eq_ok_iff.mp hOk
    rw [added_reconcile hOk]
    refine List.nodup_append.mpr ⟨hOld, hNew.sublist (List.filter_sublist.map _), ?_⟩
    rintro key hKey other hAdded rfl
    obtain ⟨entry, hEntry, rfl⟩ := List.mem_map.mp hAdded
    exact (Policy.mem_missingFrom.mp hEntry).2 hKey
  shared key hKey _ := hKey
  known key hKey := Or.inl hKey
  adds key hKey := by
    rw [added_reconcile hOk] at hKey
    exact (List.filter_sublist.map _).subset hKey
  removes key hKey := not_mem_of_removed hOk hKey
  ahead := by
    obtain ⟨removals, others, rfl, hRemovals, hOthers⟩ := phases_of_reconcile hOk
    refine Ahead.append_of_adds_nothing (fun edit hEdit => (hRemovals edit hEdit).1) ?_
    exact ahead_additionsFrom (fun edit hEdit => (hOthers edit hEdit).1) [] rfl
      (fun _ hKey => hKey) (by simp)

/-! ## Interrupted reconciliations -/

/-- A list that may be seen on the way from an old list to a new one, with some edits left. -/
structure Safe (old new list : List Entry) (rest : List Edit) : Prop where
  /-- No key is there twice. -/
  distinct : (list.map Entry.key).Nodup
  /-- Every key that is to stay is there. -/
  shared : ∀ key ∈ old.map Entry.key, key ∈ new.map Entry.key → key ∈ list.map Entry.key
  /-- Every key is an old or a new one. -/
  known : ∀ key ∈ list.map Entry.key, key ∈ old.map Entry.key ∨ key ∈ new.map Entry.key
  /-- If an entry is added next, its position is inside of the list or at its end. -/
  within : ∀ entry position others, rest = .add entry position :: others → position ≤ list.length

/--
A reconciliation leaves a safe list wherever it is interrupted, and it neither removes nor adds an
entry whose key is in both lists.
-/
theorem reconcile_interrupted (policy : EditPolicy) (hOld : (old.map Entry.key).Nodup)
    (hNew : (new.map Entry.key).Nodup) :
    ∃ edits, policy.policy.reconcile old (some new) = .ok edits ∧
      (∀ done rest, edits = done ++ rest →
        Safe old new (replay policy.placement old done) rest) ∧
      ∀ key ∈ old.map Entry.key, key ∈ new.map Entry.key →
        (∀ keys, .remove keys ∈ edits → key ∉ keys) ∧
          ∀ entry position, .add entry position ∈ edits → entry.key ≠ key := by
  obtain ⟨edits, hOk⟩ := exists_reconcile_eq_ok policy hOld hNew
  refine ⟨edits, hOk, fun done rest hSplit => ?_, fun key hKey hShared => ⟨?_, ?_⟩⟩
  · have hUnderway : Underway _ _ (old.map Entry.key) (done ++ rest) := hSplit ▸ underway hOk
    have hLeft : Underway _ _ ((replay policy.placement old done).map Entry.key) rest :=
      hUnderway.replay
    refine ⟨(List.nodup_append.mp hLeft.distinct).1, hLeft.shared, hLeft.known, ?_⟩
    rintro entry position others rfl
    rw [← List.length_map Entry.key]
    exact hLeft.position_le hNew
  · intro keys hEdit hNamed
    exact not_mem_of_removed hOk (List.mem_flatMap.mpr ⟨_, hEdit, hNamed⟩) hShared
  · intro entry position hEdit hSame
    have hAdded := List.mem_filterMap.mpr ⟨_, hEdit, (rfl : Edit.added? _ = some entry.key)⟩
    rw [added_reconcile hOk] at hAdded
    obtain ⟨other, hOther, hOtherKey⟩ := List.mem_map.mp hAdded
    refine (Policy.mem_missingFrom.mp hOther).2 ?_
    show other.key ∈ old.map Entry.key
    rwa [hOtherKey, hSame]

theorem reconcile_interrupted_atPosition :
    let old : List Entry := [⟨"a", 1⟩, ⟨"b", 2⟩, ⟨"c", 3⟩]
    let new : List Entry := [⟨"d", 4⟩, ⟨"c", 5⟩, ⟨"e", 6⟩, ⟨"a", 1⟩]
    (old.map Entry.key).Nodup ∧ (new.map Entry.key).Nodup ∧
      ∃ edits, atPosition.policy.reconcile old (some new) = .ok edits ∧
        (∀ done rest, edits = done ++ rest →
          Safe old new (replay atPosition.placement old done) rest) ∧
        ∀ key ∈ old.map Entry.key, key ∈ new.map Entry.key →
          (∀ keys, .remove keys ∈ edits → key ∉ keys) ∧
            ∀ entry position, .add entry position ∈ edits → entry.key ≠ key := by
  intro old new
  have hOld : (old.map Entry.key).Nodup := by decide
  have hNew : (new.map Entry.key).Nodup := by decide
  exact ⟨hOld, hNew, reconcile_interrupted atPosition hOld hNew⟩

end EditPolicy

end CatalogSync.KeyedList
