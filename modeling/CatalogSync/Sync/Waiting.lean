import CatalogSync.Data.KeyMap
import CatalogSync.Sync.Phase

/-!
# Drafts that wait for references

A `Waiting` index knows which drafts are parked and, for each missing key, which drafts were parked
because of it. An entry for a key is used up when the key becomes available. Releasing a draft does
not touch the entries, so an entry may still name a draft that has been released, or that has been
parked again for other keys.

## Main results

* `mem_waitingOn`: which drafts a set of available keys concerns.
* `awaits_park`, `awaits_forget`: how parking and using up change the entries.
* `size_forget_lt`: keys that concern a waiting draft use up at least one entry.
* `releaseEach_byMissing`: releasing drafts keeps all entries.
* `mem_releaseEach_drafts`: the drafts that still wait are those that have not ended.
-/

namespace CatalogSync

/-- The parked drafts and the keys they were parked for. -/
structure Waiting where
  /-- For each missing key the drafts that were parked for it. -/
  byMissing : KeyMap KeySet := KeyMap.empty
  /-- The drafts that wait. -/
  drafts : KeySet := ∅
deriving DecidableEq, Repr

namespace Waiting

/-- Enters one more draft under a missing key. -/
def enter (draft : String) (index : KeyMap KeySet) (reference : String) : KeyMap KeySet :=
  index.insert reference (((index.get? reference).getD ∅).insert draft)

/-- Parks a draft until the missing keys exist. -/
def park (waiting : Waiting) (draft : String) (missing : KeySet) : Waiting where
  byMissing := missing.toList.foldl (enter draft) waiting.byMissing
  drafts := waiting.drafts.insert draft

/-- The waiting drafts that have an entry under one of the available keys. -/
def waitingOn (waiting : Waiting) (available : KeySet) : KeySet :=
  ((waiting.byMissing.select available).foldl KeySet.union ∅).inter waiting.drafts

/-- Uses up the entries of the available keys. -/
def forget (waiting : Waiting) (available : KeySet) : Waiting :=
  { waiting with byMissing := waiting.byMissing.filterKeys fun key => !available.contains key }

/-- Takes a draft from those that wait. -/
def release (waiting : Waiting) (draft : String) : Waiting :=
  { waiting with drafts := waiting.drafts.erase draft }

/-- Takes a set of drafts from those that wait. -/
def releaseAll (waiting : Waiting) (drafts : KeySet) : Waiting :=
  { waiting with drafts := waiting.drafts.diff drafts }

/--
Releases drafts one after another as they ended. The result lists those that did wait; a draft that
occurs twice is released the first time.
-/
def releaseEach (waiting : Waiting) :
    List (String × Phase) → List (String × Phase) × Waiting
  | [] => ([], waiting)
  | outcome :: rest =>
      if waiting.drafts.contains outcome.1 then
        (outcome :: ((waiting.release outcome.1).releaseEach rest).1,
          ((waiting.release outcome.1).releaseEach rest).2)
      else waiting.releaseEach rest

theorem mem_foldl_union {sets : List KeySet} {start : KeySet} {key : String} :
    key ∈ sets.foldl KeySet.union start ↔ key ∈ start ∨ ∃ set ∈ sets, key ∈ set := by
  induction sets generalizing start with
  | nil => simp
  | cons head tail ih => simp [ih, or_assoc]

/-- Whether the entry of a missing key names a draft. -/
def Awaits (waiting : Waiting) (reference draft : String) : Prop :=
  ∃ drafts, waiting.byMissing.get? reference = some drafts ∧ draft ∈ drafts

/-- A waiting draft is concerned when the entry of an available key names it. -/
theorem mem_waitingOn {waiting : Waiting} {available : KeySet} {draft : String} :
    draft ∈ waiting.waitingOn available ↔
      draft ∈ waiting.drafts ∧ ∃ key ∈ available, waiting.Awaits key draft := by
  simp only [waitingOn, KeySet.mem_inter, mem_foldl_union, KeyMap.select, List.mem_filterMap,
    KeySet.mem_toList, KeySet.not_mem_empty, false_or]
  constructor
  · rintro ⟨⟨drafts, ⟨key, hKey, hGet⟩, hMem⟩, hWaits⟩
    exact ⟨hWaits, key, hKey, drafts, hGet, hMem⟩
  · rintro ⟨hWaits, key, hKey, drafts, hGet, hMem⟩
    exact ⟨⟨drafts, ⟨key, hKey, hGet⟩, hMem⟩, hWaits⟩

/-- One more entry names its draft under its key; the others stay. -/
theorem get?_enter {index : KeyMap KeySet} {draft key reference other : String} :
    (∃ drafts, (enter draft index key).get? reference = some drafts ∧ other ∈ drafts) ↔
      (reference = key ∧ other = draft) ∨
        ∃ drafts, index.get? reference = some drafts ∧ other ∈ drafts := by
  rw [enter, KeyMap.get?_insert]
  by_cases hKey : reference = key
  · subst hKey
    cases hOld : index.get? reference <;> simp
  · simp [hKey]

/-- Parking a draft enters it under its missing keys; the other entries stay. -/
theorem awaits_park {waiting : Waiting} {draft reference other : String} {missing : KeySet} :
    (waiting.park draft missing).Awaits reference other ↔
      (reference ∈ missing ∧ other = draft) ∨ waiting.Awaits reference other := by
  have hFold : ∀ (keys : List String) (index : KeyMap KeySet),
      (∃ drafts, (keys.foldl (enter draft) index).get? reference = some drafts ∧ other ∈ drafts) ↔
        (reference ∈ keys ∧ other = draft) ∨
          ∃ drafts, index.get? reference = some drafts ∧ other ∈ drafts := by
    intro keys
    induction keys with
    | nil => simp
    | cons key rest ih =>
        intro index
        rw [List.foldl_cons, ih, get?_enter, List.mem_cons, or_and_right, or_assoc]
        constructor
        · rintro (h | h | h) <;> simp [h]
        · rintro (h | h | h) <;> simp [h]
  exact hFold missing.toList waiting.byMissing

/-- Using up keys takes their entries away; the others stay. -/
theorem awaits_forget {waiting : Waiting} {available : KeySet} {reference draft : String} :
    (waiting.forget available).Awaits reference draft ↔
      ¬ reference ∈ available ∧ waiting.Awaits reference draft := by
  unfold Awaits forget
  rw [KeyMap.get?_filterKeys]
  by_cases hKey : reference ∈ available
  · simp [hKey, KeySet.contains_iff.mpr hKey]
  · have hTest : (!available.contains reference) = true := by
      rw [Bool.not_eq_true', ← Bool.not_eq_true, KeySet.contains_iff]
      exact hKey
    simp [hKey, hTest]

/-- Keys that concern a waiting draft use up at least one entry. -/
theorem size_forget_lt {waiting : Waiting} {available : KeySet}
    (hConcerns : ¬ (waiting.waitingOn available).isEmpty = true) :
    (waiting.forget available).byMissing.size < waiting.byMissing.size := by
  obtain ⟨draft, hMem⟩ := KeySet.exists_mem_of_not_isEmpty hConcerns
  obtain ⟨_, key, hKey, drafts, hGet, _⟩ := mem_waitingOn.mp hMem
  refine KeyMap.size_filterKeys_lt (KeyMap.get?_eq_some_iff.mp hGet) ?_
  simpa using hKey

/-- Releasing drafts keeps all entries. -/
theorem releaseEach_byMissing {waiting : Waiting} {outcomes : List (String × Phase)} :
    (waiting.releaseEach outcomes).2.byMissing = waiting.byMissing := by
  induction outcomes generalizing waiting with
  | nil => rfl
  | cons outcome rest ih =>
      unfold releaseEach
      split
      · exact ih
      · exact ih

/-- The drafts that still wait are those that have not ended. -/
theorem mem_releaseEach_drafts {waiting : Waiting} {outcomes : List (String × Phase)}
    {key : String} :
    key ∈ (waiting.releaseEach outcomes).2.drafts ↔
      key ∈ waiting.drafts ∧ ¬ key ∈ outcomes.map (·.1) := by
  induction outcomes generalizing waiting with
  | nil => simp [releaseEach]
  | cons outcome rest ih =>
      unfold releaseEach
      rw [List.map_cons, List.mem_cons, not_or]
      split
      · rw [ih, release, KeySet.mem_erase, and_assoc]
      · rename_i hAbsent
        rw [ih]
        rw [KeySet.contains_iff] at hAbsent
        constructor
        · rintro ⟨hWaits, hRest⟩
          refine ⟨hWaits, ?_, hRest⟩
          rintro rfl
          exact hAbsent hWaits
        · rintro ⟨hWaits, -, hRest⟩
          exact ⟨hWaits, hRest⟩

/-- A released draft has ended, and it did wait. -/
theorem of_mem_releaseEach {waiting : Waiting} {outcomes : List (String × Phase)}
    {outcome : String × Phase} (hMem : outcome ∈ (waiting.releaseEach outcomes).1) :
    outcome ∈ outcomes ∧ outcome.1 ∈ waiting.drafts := by
  induction outcomes generalizing waiting with
  | nil => exact absurd hMem List.not_mem_nil
  | cons head rest ih =>
      unfold releaseEach at hMem
      split at hMem
      · rename_i hWaits
        rcases List.mem_cons.mp hMem with rfl | hRest
        · exact ⟨List.mem_cons_self .., KeySet.contains_iff.mp hWaits⟩
        · have hReleased := ih hRest
          exact ⟨List.mem_cons_of_mem _ hReleased.1, (KeySet.mem_erase.mp hReleased.2).1⟩
      · exact ⟨List.mem_cons_of_mem _ (ih hMem).1, (ih hMem).2⟩

/-- A draft that ended and did wait is released. -/
theorem mem_releaseEach_of_mem {waiting : Waiting} {outcomes : List (String × Phase)} {key : String}
    (hEnded : key ∈ outcomes.map (·.1)) (hWaits : key ∈ waiting.drafts) :
    key ∈ (waiting.releaseEach outcomes).1.map (·.1) := by
  induction outcomes generalizing waiting with
  | nil => exact absurd hEnded List.not_mem_nil
  | cons outcome rest ih =>
      unfold releaseEach
      by_cases hSame : key = outcome.1
      · rw [if_pos (KeySet.contains_iff.mpr (hSame ▸ hWaits)), hSame]
        exact List.mem_cons_self ..
      · have hRest : key ∈ rest.map (·.1) := (List.mem_cons.mp hEnded).resolve_left hSame
        split
        · exact List.mem_cons_of_mem _ (ih hRest (KeySet.mem_erase.mpr ⟨hWaits, hSame⟩))
        · exact ih hRest hWaits

/-- If none of the drafts that ended did wait, the index is as it was. -/
theorem releaseEach_of_isEmpty {waiting : Waiting} {outcomes : List (String × Phase)}
    (hNone : (waiting.releaseEach outcomes).1.isEmpty = true) :
    (waiting.releaseEach outcomes).2 = waiting := by
  induction outcomes generalizing waiting with
  | nil => rfl
  | cons outcome rest ih =>
      unfold releaseEach at hNone ⊢
      split at hNone
      · cases hNone
      · rename_i hAbsent
        rw [if_neg hAbsent]
        exact ih hNone

end Waiting

end CatalogSync
