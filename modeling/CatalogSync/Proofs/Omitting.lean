import CatalogSync.Proofs.Performing
import Mathlib.Data.List.Perm.Subperm

/-!
# Leaving actions of a reconciliation out

What happens if only a part of the actions is performed. Whatever is left out, the list that is left
is known well enough to be reconciled again: a removed element that is still there has to be
removed, an added one that is missing has to be added, a shared one asks for what was left out of
its change. Only when all of these were performed does the order depend on the reordering, and then
it is the order that made the reordering necessary.

## Main results

* `Needed.of_option`, `Needed.append`: the actions for single values and for values side by side.
* `KeyedList.Policy.Needs`: what a policy has to say about the parts of its actions.
* `KeyedList.Policy.Needs.reconcile_needed`: no part of a reconciliation does as much as all of it.
-/

namespace CatalogSync

variable {S α ε : Type} {step : S → α → S}

/--
All of the actions are needed: whatever part of them is performed on what embeds a value, it leaves
what embeds another value, and this one is done only if the part is everything.
-/
def Needed (step : S → α → S) (embed : ε → S) (done : ε → Prop) (before : ε)
    (actions : List α) : Prop :=
  ∀ part, part.Sublist actions →
    ∃ left, part.foldl step (embed before) = embed left ∧ (done left → part = actions)

/-- A part of at most one action is nothing or everything. -/
theorem eq_nil_or_eq_of_sublist {part actions : List α} (hPart : part.Sublist actions)
    (hLength : actions.length ≤ 1) : part = [] ∨ part = actions := by
  cases part with
  | nil => exact Or.inl rfl
  | cons action rest =>
      refine Or.inr (hPart.eq_of_length_le (Nat.le_trans hLength ?_))
      rw [List.length_cons]
      exact Nat.le_add_left ..

/-- A part that has all elements of a list without repetition is the list. -/
theorem eq_of_sublist_of_subset {part list : List ε} (hPart : part.Sublist list)
    (hNodup : list.Nodup) (hAll : list ⊆ part) : part = list :=
  hPart.eq_of_length_le (hNodup.subperm hAll).length_le

/-- The action that a value asks for, if any, is needed. -/
theorem Needed.of_option {embed : ε → S} (asks : ε → Option α) {before : ε}
    (hStep : ∀ action, asks before = some action →
      ∃ left, step (embed before) action = embed left) :
    Needed step embed (fun value => asks value = none) before (asks before).toList := by
  intro part hPart
  have hLength : (asks before).toList.length ≤ 1 := by cases asks before <;> simp
  rcases eq_nil_or_eq_of_sublist hPart hLength with rfl | rfl
  · refine ⟨before, rfl, fun hDone => ?_⟩
    rw [hDone, Option.toList_none]
  · cases hAsks : asks before with
    | none => exact ⟨before, rfl, fun _ => rfl⟩
    | some action =>
        obtain ⟨left, hLeft⟩ := hStep action hAsks
        exact ⟨left, hLeft, fun _ => rfl⟩

/-- Actions for two values that lie side by side are needed if those for each of them are. -/
theorem Needed.append {δ : Type} (embed : ε → δ → S) {done : ε → Prop} {doneNext : δ → Prop}
    {before : ε} {next : δ} {first second : List α}
    (hFirst : Needed step (fun value => embed value next) done before first)
    (hSecond : ∀ value, Needed step (embed value) doneNext next second) :
    Needed step (fun both : ε × δ => embed both.1 both.2)
      (fun both => done both.1 ∧ doneNext both.2) (before, next) (first ++ second) := by
  intro part hPart
  obtain ⟨firstPart, secondPart, rfl, hFirstPart, hSecondPart⟩ := List.sublist_append_iff.mp hPart
  obtain ⟨value, hValue, hFirstAll⟩ := hFirst firstPart hFirstPart
  obtain ⟨other, hOther, hSecondAll⟩ := hSecond value secondPart hSecondPart
  refine ⟨(value, other), ?_, fun hDone => ?_⟩
  · rw [List.foldl_append]
    exact (congrArg (secondPart.foldl step) hValue).trans hOther
  · rw [hFirstAll hDone.1, hSecondAll hDone.2]

namespace KeyedList.Policy

variable {policy : Policy ε α} {regime : Regime ε} {embed : List ε → S} {old new list : List ε}
  {actions part : List α}

/-! ## The phases -/

/--
A policy whose actions can be left out one by one: a part of a removal removes fewer elements, and a
part of a change leaves an element that asks for the rest of it.
-/
structure Needs (policy : Policy ε α) (regime : Regime ε) (step : S → α → S)
    (embed : List ε → S) : Prop extends policy.Performs regime step embed where
  placement : policy.placement = .append
  remove_part : ∀ {removed part}, part.Sublist (policy.remove removed) →
    part = [] ∨ ∃ gone, gone.Sublist removed ∧ part = policy.remove gone
  /-- Either every removal takes an action, or none does. -/
  remove_nil : ∀ {removed}, removed ≠ [] → (policy.remove removed = [] ↔ regime.removes = false)
  change_part : ∀ {before after actions}, policy.key before = policy.key after →
    policy.change before after = .ok actions →
      ∀ front back, (policy.keys (front ++ before :: back)).Nodup →
        ∀ part, part.Sublist actions → ∃ between, policy.key between = policy.key before ∧
          part.foldl step (embed (front ++ before :: back)) = embed (front ++ between :: back) ∧
          (policy.change between after = .ok [] → part = actions)

/-- A change of at most one action is made or not. -/
theorem Performs.change_single (hPerforms : policy.Performs regime step embed) {before after : ε}
    (hKey : policy.key before = policy.key after)
    (hChange : policy.change before after = .ok actions) (hSingle : actions.length ≤ 1)
    (front back : List ε) (hNodup : (policy.keys (front ++ before :: back)).Nodup)
    (part : List α) (hPart : part.Sublist actions) :
    ∃ between, policy.key between = policy.key before ∧
      part.foldl step (embed (front ++ before :: back)) = embed (front ++ between :: back) ∧
      (policy.change between after = .ok [] → part = actions) := by
  rcases eq_nil_or_eq_of_sublist hPart hSingle with rfl | rfl
  · refine ⟨before, rfl, rfl, fun hDone => ?_⟩
    rw [hChange] at hDone
    exact (Except.ok.inj hDone).symm
  · obtain ⟨hMerged, hStep⟩ := hPerforms.change hKey hChange
    have hMergedKey := hMerged.trans hKey.symm
    exact ⟨regime.merge before after, hMergedKey, hStep front back hNodup, fun _ => rfl⟩

/-- All actions of a policy can be left out one by one if no removal and no change takes several. -/
theorem Performs.needs (hPerforms : policy.Performs regime step embed)
    (hPlacement : policy.placement = .append)
    (hRemove : ∀ removed, (policy.remove removed).length ≤ 1)
    (hNil : ∀ removed, removed ≠ [] → (policy.remove removed = [] ↔ regime.removes = false))
    (hChange : ∀ before after actions, policy.change before after = .ok actions →
      actions.length ≤ 1) : policy.Needs regime step embed where
  toPerforms := hPerforms
  placement := hPlacement
  remove_part {removed _} hPart :=
    (eq_nil_or_eq_of_sublist hPart (hRemove removed)).imp_right fun hAll =>
      ⟨removed, .refl removed, hAll⟩
  remove_nil {removed} hSome := hNil removed hSome
  change_part {before after actions} hKey hOk :=
    hPerforms.change_single hKey hOk (hChange before after actions hOk)

/-- Whatever removals are left out, all shared elements stay; what has to be removed and is still
there was left out. -/
theorem Needs.removals_part (hNeeds : policy.Needs regime step embed)
    (hOld : (policy.keys old).Nodup) (hPart : part.Sublist (policy.removals old new)) :
    ∃ test : ε → Bool,
      (∀ element ∈ old, policy.key element ∈ policy.keys new → test element = true) ∧
        part.foldl step (embed old) = embed (old.filter test) ∧
        (part = policy.removals old new ∨ regime.removes = true ∧
          ∃ element ∈ old.filter test, ¬ policy.key element ∈ policy.keys new) := by
  have hAll : old.filter (fun _ => true) = old := List.filter_eq_self.mpr fun _ _ => rfl
  unfold removals at hPart ⊢
  split at hPart
  · refine ⟨fun _ => true, fun _ _ _ => rfl, ?_, Or.inl (List.eq_nil_of_sublist_nil hPart)⟩
    rw [List.eq_nil_of_sublist_nil hPart, hAll, List.foldl_nil]
  · rename_i hSome
    have hRemoved : ∀ element ∈ policy.missingFrom new old,
        element ∈ old ∧ ¬ policy.key element ∈ policy.keys new := fun element => mem_missingFrom.mp
    cases hRemoves : regime.removes with
    | false =>
        have hNone := (hNeeds.remove_nil hSome).mpr hRemoves
        rw [hNone] at hPart ⊢
        refine ⟨fun _ => true, fun _ _ _ => rfl, ?_, Or.inl (List.eq_nil_of_sublist_nil hPart)⟩
        rw [List.eq_nil_of_sublist_nil hPart, hAll, List.foldl_nil]
    | true =>
        rcases hNeeds.remove_part hPart with rfl | ⟨gone, hGone, rfl⟩
        · obtain ⟨element, hElement⟩ := List.exists_mem_of_ne_nil _ hSome
          refine ⟨fun _ => true, fun _ _ _ => rfl, ?_, Or.inr ⟨rfl, element, ?_⟩⟩
          · rw [hAll, List.foldl_nil]
          · rw [hAll]
            exact hRemoved element hElement
        · refine ⟨fun element => !(policy.keys gone).contains (policy.key element), ?_, ?_, ?_⟩
          · intro element _ hShared
            have hStays : ¬ policy.key element ∈ policy.keys gone := by
              intro hKey
              obtain ⟨other, hOther, hSame⟩ := List.mem_map.mp hKey
              exact (hRemoved other (hGone.subset hOther)).2 (hSame ▸ hShared)
            simpa using hStays
          · rw [hNeeds.remove, if_pos hRemoves]
          · by_cases hEverything : gone = policy.missingFrom new old
            · exact Or.inl (hEverything ▸ rfl)
            · -- Fewer elements are gone, so one of those that have other keys is left.
              have hLeft : ∃ element ∈ policy.missingFrom new old, ¬ element ∈ gone := by
                by_contra hNone
                have hSub : policy.missingFrom new old ⊆ gone := fun element hElement =>
                  Classical.byContradiction fun hNot => hNone ⟨element, hElement, hNot⟩
                exact hEverything
                  (eq_of_sublist_of_subset hGone ((hOld.of_map policy.key).filter _) hSub)
              obtain ⟨element, hElement, hNot⟩ := hLeft
              obtain ⟨hMem, hFresh⟩ := hRemoved element hElement
              refine Or.inr ⟨rfl, element, List.mem_filter.mpr ⟨hMem, ?_⟩, hFresh⟩
              have hKey : ¬ policy.key element ∈ policy.keys gone := by
                intro hKey
                obtain ⟨other, hOther, hSame⟩ := List.mem_map.mp hKey
                have hOtherOld := (hRemoved other (hGone.subset hOther)).1
                exact hNot (List.inj_on_of_nodup_map hOld hOtherOld hMem hSame ▸ hOther)
              simpa using hKey

/-- Whatever additions are left out, the others are appended in their order. -/
theorem Needs.additions_part (hNeeds : policy.Needs regime step embed) (entries : List (ε × Nat))
    (hPart : part.Sublist (entries.filterMap fun (element, position) =>
      if (policy.keys old).contains (policy.key element) then none
      else some (policy.add element position))) :
    ∃ added, added.Sublist (policy.missingFrom old (entries.map (·.1))) ∧
      (∀ list, part.foldl step (embed list) = embed (list ++ added)) ∧
      (added = policy.missingFrom old (entries.map (·.1)) →
        part = entries.filterMap fun (element, position) =>
          if (policy.keys old).contains (policy.key element) then none
          else some (policy.add element position)) := by
  induction entries generalizing part with
  | nil =>
      obtain rfl := List.eq_nil_of_sublist_nil hPart
      exact ⟨[], .refl _, fun list => by rw [List.append_nil, List.foldl_nil], fun _ => rfl⟩
  | cons entry rest ih =>
      obtain ⟨element, position⟩ := entry
      by_cases hOld : (policy.keys old).contains (policy.key element) = true
      · have hSame : policy.missingFrom old (((element, position) :: rest).map (·.1)) =
            policy.missingFrom old (rest.map (·.1)) :=
          List.filter_cons_of_neg (by simpa using hOld)
        simp only [List.filterMap_cons, if_pos hOld] at hPart ⊢
        rw [hSame]
        exact ih hPart
      · have hMore : policy.missingFrom old (((element, position) :: rest).map (·.1)) =
            element :: policy.missingFrom old (rest.map (·.1)) :=
          List.filter_cons_of_pos (by simpa using hOld)
        simp only [List.filterMap_cons, if_neg hOld] at hPart ⊢
        rw [hMore]
        rcases List.sublist_cons_iff.mp hPart with hRest | ⟨others, rfl, hOthers⟩
        · obtain ⟨added, hAdded, hStep, -⟩ := ih hRest
          refine ⟨added, hAdded.cons element, hStep, fun hAll => ?_⟩
          have hShort := hAdded.length_le
          rw [hAll, List.length_cons] at hShort
          omega
        · obtain ⟨added, hAdded, hStep, hAll⟩ := ih hOthers
          refine ⟨element :: added, hAdded.cons_cons element, fun list => ?_, fun hSame => ?_⟩
          · rw [List.foldl_cons, hNeeds.add, place, hNeeds.placement]
            simp only [hStep, List.append_assoc, List.singleton_append]
          · rw [hAll (List.cons.inj hSame).2]

/-- Whatever is left out of the changes, each element is left in a state that asks for it. -/
theorem Needs.changes_part (hNeeds : policy.Needs regime step embed) {rest : List ε}
    (hOk : policy.changes old rest = .ok actions) (hList : (policy.keys list).Nodup)
    (hRest : (policy.keys rest).Nodup)
    (hHeld : ∀ after ∈ rest, ∀ before, policy.find? old (policy.key after) = some before →
      before ∈ list)
    (hPart : part.Sublist actions) :
    ∃ left, part.foldl step (embed list) = embed left ∧ policy.keys left = policy.keys list ∧
      (∀ element ∈ list, ¬ policy.key element ∈ policy.keys rest → element ∈ left) ∧
      ((∀ after ∈ rest, ∀ between ∈ left, policy.key between = policy.key after →
        policy.change between after = .ok []) → part = actions) := by
  induction rest generalizing list actions part with
  | nil =>
      cases hOk
      obtain rfl := List.eq_nil_of_sublist_nil hPart
      exact ⟨list, rfl, rfl, fun _ hElement _ => hElement, fun _ => rfl⟩
  | cons after rest ih =>
      have hLater : ∀ other ∈ rest, ∀ before, policy.find? old (policy.key other) = some before →
          before ∈ list := fun other hOther => hHeld other (List.mem_cons_of_mem _ hOther)
      obtain ⟨hApart, hNodup⟩ := List.nodup_cons.mp hRest
      obtain ⟨first, others, hOthers, rfl, hFirst⟩ := of_changes_cons hOk
      obtain ⟨firstPart, otherPart, rfl, hFirstPart, hOtherPart⟩ := List.sublist_append_iff.mp hPart
      rcases hFirst with ⟨-, rfl⟩ | ⟨before, hFind, hChange⟩
      · obtain rfl := List.eq_nil_of_sublist_nil hFirstPart
        obtain ⟨left, hLeft, hKeys, hStays, hAll⟩ := ih hOthers hList hNodup hLater hOtherPart
        refine ⟨left, hLeft, hKeys, fun element hElement hNot => ?_, fun hDone => ?_⟩
        · exact hStays element hElement fun hMem => hNot (List.mem_cons_of_mem _ hMem)
        · rw [hAll fun other hOther => hDone other (List.mem_cons_of_mem _ hOther)]
      · have hKey : policy.key before = policy.key after := key_of_find? hFind
        obtain ⟨front, back, rfl⟩ :=
          List.append_of_mem (hHeld after (List.mem_cons_self ..) before hFind)
        obtain ⟨between, hBetween, hStep, hFirstAll⟩ :=
          hNeeds.change_part hKey hChange front back hList firstPart hFirstPart
        have hSameKeys : policy.keys (front ++ between :: back) =
            policy.keys (front ++ before :: back) := by
          simp only [keys, List.map_append, List.map_cons, hBetween]
        have hElsewhere : ∀ element ∈ front ++ before :: back,
            policy.key element ≠ policy.key after → element ∈ front ++ between :: back := by
          intro element hElement hOtherKey
          rcases List.mem_append.mp hElement with hFront | hBack
          · exact List.mem_append_left _ hFront
          · rcases List.mem_cons.mp hBack with rfl | hBack
            · exact absurd hKey hOtherKey
            · exact List.mem_append_right _ (List.mem_cons_of_mem _ hBack)
        have hStillHeld : ∀ other ∈ rest, ∀ found,
            policy.find? old (policy.key other) = some found →
              found ∈ front ++ between :: back := by
          intro other hOther found hFound
          refine hElsewhere found (hLater other hOther found hFound) fun hSame => hApart ?_
          show policy.key after ∈ policy.keys rest
          rw [← hSame, key_of_find? hFound]
          exact List.mem_map_of_mem hOther
        obtain ⟨left, hLeft, hKeys, hStays, hAll⟩ :=
          ih hOthers (hSameKeys ▸ hList) hNodup hStillHeld hOtherPart
        refine ⟨left, ?_, hKeys.trans hSameKeys, fun element hElement hNot => ?_, fun hDone => ?_⟩
        · rw [List.foldl_append, hStep, hLeft]
        · have hNotAfter : policy.key element ≠ policy.key after := fun hSame =>
            hNot (hSame ▸ List.mem_cons_self ..)
          exact hStays element (hElsewhere element hElement hNotAfter) fun hMem =>
            hNot (List.mem_cons_of_mem _ hMem)
        · -- No later change looks for the key of the first one, so it is still as it was left.
          have hBetweenLeft : between ∈ left :=
            hStays between (by simp) (by rwa [hBetween, hKey])
          have hNoFirst := hDone after (List.mem_cons_self ..) between hBetweenLeft
            (hBetween.trans hKey)
          rw [hFirstAll hNoFirst,
            hAll fun other hOther => hDone other (List.mem_cons_of_mem _ hOther)]

/-- A reordering is asked for or left out, and leaves the same keys in either case. -/
theorem Needs.reordering_part (hNeeds : policy.Needs regime step embed)
    (hNew : (policy.keys new).Nodup) (list : List ε)
    (hPart : part.Sublist (policy.reordering old new)) :
    ∃ left, part.foldl step (embed list) = embed left ∧ left.Perm list ∧
      (part = policy.reordering old new ∨ left = list ∧ policy.outOfOrder old new = true ∧
        (policy.reorder new).toList ≠ []) := by
  have hLength : (policy.reordering old new).length ≤ 1 := by
    unfold reordering
    cases policy.reorder new <;> split <;> simp
  rcases eq_nil_or_eq_of_sublist hPart hLength with rfl | rfl
  · refine ⟨list, rfl, .refl list, ?_⟩
    unfold reordering
    split
    · rename_i hOrder
      by_cases hNone : (policy.reorder new).toList = []
      · exact Or.inl hNone.symm
      · exact Or.inr ⟨rfl, hOrder, hNone⟩
    · exact Or.inl rfl
  · exact ⟨policy.settled old new list, hNeeds.foldl_reordering hNew, settled_perm, Or.inl rfl⟩

/-! ## All phases -/

/-- What asks for nothing has no change to make. -/
theorem change_eq_nil_of_changes {before after : ε} (hOk : policy.changes old new = .ok [])
    (hOld : (policy.keys old).Nodup) (hBefore : before ∈ old) (hAfter : after ∈ new)
    (hKey : policy.key before = policy.key after) : policy.change before after = .ok [] := by
  induction new with
  | nil => exact absurd hAfter List.not_mem_nil
  | cons element rest ih =>
      obtain ⟨first, others, hOthers, hNil, hFirst⟩ := of_changes_cons hOk
      obtain ⟨rfl, rfl⟩ := List.append_eq_nil_iff.mp hNil.symm
      rcases List.mem_cons.mp hAfter with rfl | hRest
      · have hFind := (find?_eq_some_iff hOld).mpr ⟨hBefore, hKey⟩
        rcases hFirst with ⟨hNone, -⟩ | ⟨found, hFound, hChange⟩
        · rw [hFind] at hNone
          cases hNone
        · rw [hFind] at hFound
          cases hFound
          exact hChange
      · exact ih hOthers hRest

/-- What asks for no addition holds all new keys. -/
theorem mem_keys_of_additions (hNone : policy.additions list new = []) {element : ε}
    (hElement : element ∈ new) : policy.key element ∈ policy.keys list := by
  by_contra hNot
  rw [← List.zipIdx_map_fst 0 new] at hElement
  obtain ⟨entry, hEntry, rfl⟩ := List.mem_map.mp hElement
  have hAdded : policy.add entry.1 entry.2 ∈ policy.additions list new :=
    List.mem_filterMap.mpr ⟨entry, hEntry, if_neg (by simpa using hNot)⟩
  rw [hNone] at hAdded
  exact List.not_mem_nil hAdded

/-- What asks for no removal holds new keys only, if elements can be removed. -/
theorem Needs.mem_keys_of_removals (hNeeds : policy.Needs regime step embed)
    (hRemoves : regime.removes = true) (hNone : policy.removals list new = []) {element : ε}
    (hElement : element ∈ list) : policy.key element ∈ policy.keys new := by
  refine (removals_eq_nil_iff fun removed hSome hNil => ?_).mp hNone element hElement
  rw [(hNeeds.remove_nil hSome).mp hNil] at hRemoves
  cases hRemoves

/-- A list with the shared keys in their old order and the added ones behind them is as much out of
order as the old list. -/
theorem outOfOrder_of_keys (hPlacement : policy.placement = .append)
    (hNone : policy.additions list new = [])
    (hKeys : (policy.keys list).filter (policy.keys new).contains =
      (policy.keys old).filter (policy.keys new).contains ++
        policy.keys (policy.missingFrom old new)) :
    policy.outOfOrder list new = policy.outOfOrder old new := by
  have hMissing : policy.missingFrom list new = [] := by
    refine List.filter_eq_nil_iff.mpr fun element hElement => ?_
    simpa using mem_keys_of_additions hNone hElement
  have hNoKeys : policy.keys [] = [] := rfl
  unfold outOfOrder
  rw [hPlacement]
  simp only [hKeys, hMissing, hNoKeys, List.append_nil]

/-- After some removals the shared keys stand in their old order, before all that was added. -/
theorem filter_keys_append {test : ε → Bool}
    (hShared : ∀ element ∈ old, policy.key element ∈ policy.keys new → test element = true) :
    (policy.keys (old.filter test ++ policy.missingFrom old new)).filter
        (policy.keys new).contains =
      (policy.keys old).filter (policy.keys new).contains ++
        policy.keys (policy.missingFrom old new) := by
  have hAdded : ∀ key ∈ policy.keys (policy.missingFrom old new),
      (policy.keys new).contains key = true := by
    intro key hKey
    obtain ⟨element, hElement, rfl⟩ := List.mem_map.mp hKey
    exact List.contains_iff_mem.mpr (List.mem_map_of_mem (mem_missingFrom.mp hElement).1)
  rw [keys_append, List.filter_append, List.filter_eq_self.mpr hAdded, ← keys_filter, ← keys_filter,
    List.filter_filter]
  congr 2
  refine List.filter_congr fun element hElement => ?_
  by_cases hMem : policy.key element ∈ policy.keys new
  · simp [hShared element hElement hMem]
  · simp [hMem]

/-- No part of a reconciliation but all of it leaves a list that asks for nothing. -/
theorem Needs.reconcile_needed (hNeeds : policy.Needs regime step embed)
    (hOk : policy.reconcile old (some new) = .ok actions) :
    Needed step embed (fun list => policy.reconcile list (some new) = .ok []) old actions := by
  obtain ⟨hOld, hNew, changed, hChanges, rfl⟩ := reconcile_eq_ok_iff.mp hOk
  intro part hPart
  obtain ⟨_, reorderPart, rfl, hRest, hReorderPart⟩ := List.sublist_append_iff.mp hPart
  obtain ⟨_, changePart, rfl, hRest, hChangePart⟩ := List.sublist_append_iff.mp hRest
  obtain ⟨removePart, addPart, rfl, hRemovePart, hAddPart⟩ := List.sublist_append_iff.mp hRest
  -- What each phase leaves of its part.
  obtain ⟨test, hShared, hRemoved, hRemoveAll⟩ := hNeeds.removals_part hOld hRemovePart
  obtain ⟨added, hAdded, hAppended, hAddAll⟩ := hNeeds.additions_part new.zipIdx hAddPart
  rw [List.zipIdx_map_fst] at hAdded hAddAll
  have hFresh : ∀ element ∈ added, element ∈ new ∧ ¬ policy.key element ∈ policy.keys old :=
    fun element hElement => mem_missingFrom.mp (hAdded.subset hElement)
  have hNodup : (policy.keys (old.filter test ++ added)).Nodup := by
    rw [keys_append]
    refine List.nodup_append.mpr ⟨hOld.sublist (List.filter_sublist.map _),
      hNew.sublist ((hAdded.trans List.filter_sublist).map _), ?_⟩
    rintro key hKept other hOther rfl
    obtain ⟨element, hElement, hKey⟩ := List.mem_map.mp hOther
    exact (hFresh element hElement).2 (hKey ▸ (List.filter_sublist.map policy.key).subset hKept)
  have hHeld : ∀ after ∈ new, ∀ before, policy.find? old (policy.key after) = some before →
      before ∈ old.filter test ++ added := by
    intro after hAfter before hFind
    have hBefore := List.mem_of_find?_eq_some hFind
    refine List.mem_append_left _ (List.mem_filter.mpr ⟨hBefore, hShared before hBefore ?_⟩)
    rw [key_of_find? hFind]
    exact List.mem_map_of_mem hAfter
  obtain ⟨merged, hMerged, hKeys, -, hChangeAll⟩ :=
    hNeeds.changes_part hChanges hNodup hNew hHeld hChangePart
  obtain ⟨left, hLeft, hPerm, hReorderAll⟩ :=
    hNeeds.reordering_part hNew merged hReorderPart
  refine ⟨left, ?_, fun hDone => ?_⟩
  · rw [List.foldl_append, List.foldl_append, List.foldl_append, hRemoved, hAppended, hMerged,
      hLeft]
  -- If what is left asks for nothing, then nothing was left out of any phase.
  obtain ⟨hLeftNodup, -, again, hAgain, hNothing⟩ := reconcile_eq_ok_iff.mp hDone
  obtain ⟨hNoOther, hNoReordering⟩ := List.append_eq_nil_iff.mp hNothing.symm
  obtain ⟨hNeither, hNoChanges⟩ := List.append_eq_nil_iff.mp hNoOther
  obtain ⟨hNoRemovals, hNoAdditions⟩ := List.append_eq_nil_iff.mp hNeither
  rw [hNoChanges] at hAgain
  have hLeftKeys : ∀ key, key ∈ policy.keys left ↔ key ∈ policy.keys (old.filter test ++ added) :=
    fun key => hKeys ▸ (hPerm.map policy.key).mem_iff
  have hRemoveEq : removePart = policy.removals old new := by
    refine hRemoveAll.resolve_right ?_
    rintro ⟨hRemoves, element, hElement, hNotNew⟩
    have hKey : policy.key element ∈ policy.keys left :=
      (hLeftKeys _).mpr (List.mem_map_of_mem (List.mem_append_left _ hElement))
    obtain ⟨other, hOther, hSame⟩ := List.mem_map.mp hKey
    exact hNotNew (hSame ▸ hNeeds.mem_keys_of_removals hRemoves hNoRemovals hOther)
  have hAddedEq : added = policy.missingFrom old new := by
    refine eq_of_sublist_of_subset hAdded ((hNew.of_map policy.key).filter _) ?_
    intro element hElement
    obtain ⟨hMem, hNotOld⟩ := mem_missingFrom.mp hElement
    have hKey := (hLeftKeys _).mp (mem_keys_of_additions hNoAdditions hMem)
    obtain ⟨other, hOther, hSame⟩ := List.mem_map.mp hKey
    rcases List.mem_append.mp hOther with hKept | hOther
    · exact absurd (hSame ▸ List.mem_map_of_mem (List.mem_filter.mp hKept).1) hNotOld
    · exact List.inj_on_of_nodup_map hNew (hFresh other hOther).1 hMem hSame ▸ hOther
  have hAddEq : addPart = policy.additions old new := hAddAll hAddedEq
  have hChangeEq : changePart = changed := hChangeAll fun after hAfter between hBetween hKey =>
    change_eq_nil_of_changes hAgain hLeftNodup (hPerm.mem_iff.mpr hBetween) hAfter hKey
  have hReorderEq : reorderPart = policy.reordering old new := by
    refine hReorderAll.resolve_right ?_
    rintro ⟨rfl, hOrder, hReorder⟩
    have hRetained := filter_keys_append hShared
    rw [← hAddedEq, ← hKeys, hAddedEq] at hRetained
    have hStillOut := outOfOrder_of_keys hNeeds.placement hNoAdditions hRetained
    rw [reordering, hStillOut, if_pos hOrder] at hNoReordering
    exact hReorder hNoReordering
  rw [hRemoveEq, hAddEq, hChangeEq, hReorderEq]

end KeyedList.Policy

end CatalogSync
