import CatalogSync.Proofs.Replaying

/-!
# One pass settles a list

A remote that cannot remove entries keeps what the new list lacks. Appended entries come to stand
behind such leftovers, so the order is as foreseen, and one pass settles the list. A position is
counted from the front of the new list, though: if a leftover stands in front of a shared entry, an
entry that is inserted behind that one comes to stand before it. Nobody asked for a reordering then,
so the list is left out of order until the next pass.

## Main results

* `Policy.keys_placed_iff`: inserted entries are in order unless a leftover is in the way.
* `EditPolicy.reconcile_settles`: when one pass settles a plain list, and what is left otherwise.
-/

namespace CatalogSync.KeyedList

namespace Policy

variable {ε α : Type} {policy : Policy ε α} {regime : Regime ε} {old new list : List ε}

/-! ## Leftovers in the way -/

/-- Of two different keys only one stands before the other. -/
theorem not_sublist_swap {keys : List String} {left right : String} (hNodup : keys.Nodup)
    (hPair : [left, right].Sublist keys) : ¬ [right, left].Sublist keys := by
  intro hSwapped
  have hSorted {first second : String} : [first, second].Sublist keys →
      keys.idxOf first ≤ keys.idxOf second :=
    List.pairwise_iff_forall_sublist.mp (idxOf_sorted hNodup)
  have hLeft : left ∈ keys := hPair.subset (List.mem_cons_self ..)
  have hSame : left = right :=
    (List.idxOf_inj hLeft).mp (Nat.le_antisymm (hSorted hPair) (hSorted hSwapped))
  have hTwice := hNodup.sublist hPair
  simp [hSame] at hTwice

/-- What stands before an element of the front part stands in the front part. -/
theorem mem_front_of_pair {front back : List String} {left right : String}
    (hNodup : (front ++ back).Nodup) (hPair : [left, right].Sublist (front ++ back))
    (hRight : right ∈ front) : left ∈ front := by
  obtain ⟨first, last, hSplit, hFirst, hLast⟩ := List.sublist_append_iff.mp hPair
  cases first with
  | nil =>
      have hBack : right ∈ back := by
        refine hLast.subset ?_
        rw [List.nil_append] at hSplit
        rw [← hSplit]
        simp
      exact absurd rfl ((List.nodup_append.mp hNodup).2.2 right hRight right hBack)
  | cons head tail =>
      obtain ⟨rfl, -⟩ := List.cons.inj hSplit
      exact hFirst.subset (List.mem_cons_self ..)

/-- Placing elements leaves those that are there in their order. -/
theorem sublist_foldl_placeNew (policy : Policy ε α) (old : List ε) (entries : List (ε × Nat))
    (list : List ε) : list.Sublist (entries.foldl (policy.placeNew old) list) := by
  induction entries generalizing list with
  | nil => exact .refl list
  | cons entry rest ih =>
      refine List.Sublist.trans ?_ (ih _)
      unfold placeNew place
      split
      · exact .refl list
      · split
        · exact List.sublist_append_left list _
        · exact List.sublist_insertIdx ..

/-- The keys of the elements looked at are there once these were placed. -/
theorem mem_keys_foldl_placeNew {entries : List ε} {key : String} (hKey : key ∈ policy.keys entries)
    (hShared : key ∈ policy.keys old → key ∈ policy.keys list) :
    key ∈ policy.keys (entries.zipIdx.foldl (policy.placeNew old) list) := by
  have hPerm := foldl_placeNew_perm policy entries.zipIdx old list
  rw [List.zipIdx_map_fst] at hPerm
  refine (hPerm.map policy.key).mem_iff.mpr ?_
  rw [List.map_append]
  by_cases hOld : key ∈ policy.keys old
  · exact List.mem_append_left _ (hShared hOld)
  · obtain ⟨element, hElement, rfl⟩ := List.mem_map.mp hKey
    exact List.mem_append_right _ (List.mem_map_of_mem (mem_missingFrom.mpr ⟨hElement, hOld⟩))

/-- Shared keys are kept. -/
theorem mem_keys_kept {key : String} (hOld : key ∈ policy.keys old) (hNew : key ∈ policy.keys new) :
    key ∈ policy.keys (policy.kept regime old new) := by
  unfold kept
  split
  · rw [keys_filter]
    exact List.mem_filter.mpr ⟨hOld, List.contains_iff_mem.mpr hNew⟩
  · exact hOld

/-- If the new keys are in order once an element was inserted between two parts of a list, then the
keys that the new list has before it are in the front part. -/
theorem keys_subset_front {first last front back : List ε} {element : ε}
    (hNew : (policy.keys (first ++ element :: last)).Nodup)
    (hList : (front ++ element :: back).Sublist list)
    (hOrder : (policy.keys list).filter (policy.keys (first ++ element :: last)).contains =
      policy.keys (first ++ element :: last))
    (hThere : ∀ key ∈ policy.keys first, key ∈ policy.keys (front ++ back)) :
    ∀ key ∈ policy.keys first, key ∈ policy.keys front := by
  intro key hKey
  have hKeys : policy.keys (first ++ element :: last) =
      policy.keys first ++ policy.key element :: policy.keys last := keys_append
  have hMem := hThere key hKey
  rw [keys_append] at hMem
  refine (List.mem_append.mp hMem).resolve_right fun hBack => ?_
  have hBefore : [key, policy.key element].Sublist (policy.keys (first ++ element :: last)) := by
    rw [hKeys]
    exact (List.singleton_sublist.mpr hKey).append
      (List.singleton_sublist.mpr (List.mem_cons_self ..))
  refine not_sublist_swap hNew hBefore ?_
  have hBehind : [policy.key element, key].Sublist (policy.keys list) := by
    refine List.Sublist.trans ?_ (hList.map policy.key)
    rw [List.map_append, List.map_cons]
    exact ((List.singleton_sublist.mpr hBack).cons_cons _).trans (List.sublist_append_right ..)
  have hFiltered := hBehind.filter (policy.keys (first ++ element :: last)).contains
  rw [hOrder, List.filter_eq_self.mpr] at hFiltered
  · exact hFiltered
  · intro other hOther
    have hPart := hBefore.subset
    rw [List.contains_iff_mem]
    rcases List.mem_cons.mp hOther with rfl | hOther
    · exact hPart (by simp)
    · rw [List.mem_singleton.mp hOther]
      exact hPart (by simp)

/-- An element that is inserted behind the first ones of the new list stands between two parts of the
list, the first one no longer than these. -/
theorem splice_sublist_placed (hPlacement : policy.placement = .atPosition) {first last before : List ε}
    {element : ε} (hElement : ¬ policy.key element ∈ policy.keys old)
    (hBefore : first.zipIdx.foldl (policy.placeNew old)
      (policy.kept regime old (first ++ element :: last)) = before) :
    (before.take first.length ++ element :: before.drop first.length).Sublist
      (policy.placed regime old (first ++ element :: last)) := by
  have hPlaced : policy.place before element first.length =
      before.take first.length ++ element :: before.drop first.length := by
    have hInserted := @insertIdx_append ε (before.take first.length) (before.drop first.length)
      element
    rw [List.take_append_drop, List.length_take] at hInserted
    rw [place, hPlacement]
    exact hInserted
  have hFresh : ¬ (policy.keys old).contains (policy.key element) = true := by
    rwa [List.contains_iff_mem]
  rw [placed, List.zipIdx_append, List.foldl_append, hBefore, List.zipIdx_cons, List.foldl_cons,
    Nat.zero_add, placeNew, if_neg hFresh, hPlaced]
  exact sublist_foldl_placeNew ..

/-- An element that is inserted at its position puts the new keys out of order, if a leftover is in
its way. -/
theorem not_obstructed_of_keys_placed (hPlacement : policy.placement = .atPosition)
    (hOld : (policy.keys old).Nodup) (hNew : (policy.keys new).Nodup)
    (hOrder : (policy.keys (policy.placed regime old new)).filter (policy.keys new).contains =
      policy.keys new) : ¬ policy.Obstructed regime old new := by
  rintro ⟨leftover, shared, added, hKept, hLeft, hBehind, hAdded⟩
  obtain ⟨element, hElement, rfl⟩ :=
    List.mem_map.mp (hBehind.subset (List.mem_cons_of_mem _ (List.mem_cons_self ..)))
  obtain ⟨first, last, rfl⟩ := List.append_of_mem hElement
  have hKeys : policy.keys (first ++ element :: last) =
      policy.keys first ++ policy.key element :: policy.keys last := keys_append
  -- The list when the element is inserted behind the first elements of the new list.
  generalize hBefore : first.zipIdx.foldl (policy.placeNew old)
    (policy.kept regime old (first ++ element :: last)) = before
  have hWritten := splice_sublist_placed hPlacement hAdded hBefore
  generalize hFront : before.take first.length = front at hWritten
  generalize hBack : before.drop first.length = back at hWritten
  have hParts : front ++ back = before := by rw [← hFront, ← hBack, List.take_append_drop]
  have hAhead : ∀ key ∈ policy.keys first, key ∈ policy.keys front := by
    refine keys_subset_front hNew hWritten hOrder fun key hKey => ?_
    rw [hParts, ← hBefore]
    refine mem_keys_foldl_placeNew hKey fun hShared => mem_keys_kept hShared ?_
    rw [hKeys]
    exact List.mem_append_left _ hKey
  have hFirst : (policy.keys first).Nodup := by
    rw [hKeys] at hNew
    exact (List.nodup_append.mp hNew).1
  have hParted : (policy.keys front ++ policy.keys back).Nodup := by
    have hSpliced := (nodup_keys_placed hOld hNew).sublist (hWritten.map policy.key)
    rw [List.map_append, List.map_cons] at hSpliced
    exact (List.nodup_cons.mp (List.nodup_middle.mp hSpliced)).2
  -- The front part has room for the first new keys only, so the leftover is one of them.
  have hOnly : policy.keys front ⊆ policy.keys first := by
    have hFull : (policy.keys front).length ≤ (policy.keys first).length := by
      rw [keys, keys, List.length_map, List.length_map, ← hFront, List.length_take]
      exact Nat.min_le_left ..
    exact ((List.subperm_of_subset hFirst hAhead).perm_of_length_le hFull).symm.subset
  have hFrontLeft : leftover ∈ policy.keys front := by
    have hPair : [leftover, shared].Sublist (policy.keys front ++ policy.keys back) := by
      rw [← keys_append, hParts, ← hBefore]
      exact hKept.trans ((sublist_foldl_placeNew ..).map policy.key)
    refine mem_front_of_pair hParted hPair (hAhead shared ?_)
    have hOldShared : shared ∈ policy.keys old :=
      (kept_sublist.map policy.key).subset (hKept.subset (by simp))
    rw [hKeys, List.append_cons] at hNew hBehind
    have hShared := mem_front_of_pair hNew hBehind (List.mem_append_right _ (List.mem_cons_self ..))
    refine (List.mem_append.mp hShared).resolve_right fun hSame => hAdded ?_
    rwa [← List.mem_singleton.mp hSame]
  refine hLeft ?_
  rw [hKeys]
  exact List.mem_append_left _ (hOnly hFrontLeft)

/-- Elements that are inserted at their positions come to stand in the new order exactly if no
leftover is in the way of an addition. -/
theorem keys_placed_iff (hPlacement : policy.placement = .atPosition)
    (hOld : (policy.keys old).Nodup) (hNew : (policy.keys new).Nodup)
    (hInOrder : policy.outOfOrder old new = false) :
    (policy.keys (policy.placed regime old new)).filter (policy.keys new).contains =
      policy.keys new ↔ ¬ policy.Obstructed regime old new := by
  constructor
  · exact not_obstructed_of_keys_placed hPlacement hOld hNew
  · exact fun hClear => keys_placed hInOrder (.inr hClear)

/-- A reordering is asked for if all new keys are there in another order. -/
theorem reordering_of_held (hHeld : ∀ key ∈ policy.keys new, key ∈ policy.keys list)
    (hKeys : (policy.keys list).filter (policy.keys new).contains ≠ policy.keys new) :
    policy.reordering list new = (policy.reorder new).toList := by
  have hOut : policy.outOfOrder list new = true := by
    unfold outOfOrder
    cases policy.placement with
    | append =>
        have hNone : policy.missingFrom list new = [] := by
          refine List.filter_eq_nil_iff.mpr fun element hElement => ?_
          simpa using hHeld _ (List.mem_map_of_mem hElement)
        have hEmpty : policy.keys ([] : List ε) = [] := rfl
        simpa only [hNone, hEmpty, List.append_nil, bne_iff_ne] using hKeys
    | atPosition =>
        have hAll : (policy.keys new).filter (policy.keys list).contains = policy.keys new :=
          List.filter_eq_self.mpr fun key hKey => List.contains_iff_mem.mpr (hHeld key hKey)
        simpa only [hAll, bne_iff_ne] using hKeys
  rw [reordering, if_pos hOut]

end Policy

/-! ## Settling a plain list -/

namespace EditPolicy

variable {policy : EditPolicy} {old new list : List Entry}

/-- Whether entries are inserted where they do not belong, and nobody notices: a leftover that cannot
be removed stands in front of a shared entry, an entry is to be inserted behind that one, and the
shared entries are in order, so that no reordering is asked for. -/
def Crowded (policy : EditPolicy) (old new : List Entry) : Prop :=
  policy.addOnly = true ∧ policy.placement = .atPosition ∧
    (old.map Entry.key).filter (new.map Entry.key).contains =
      (new.map Entry.key).filter (old.map Entry.key).contains ∧
    ∃ leftover shared added,
      [leftover, shared].Sublist (old.map Entry.key) ∧ ¬ leftover ∈ new.map Entry.key ∧
        [shared, added].Sublist (new.map Entry.key) ∧ ¬ added ∈ old.map Entry.key

/-- Replaying a reconciliation leaves what such a remote ends up with. -/
theorem reconcile_replays (policy : EditPolicy) (hOld : (policy.policy.keys old).Nodup)
    (hNew : (policy.policy.keys new).Nodup) :
    ∃ edits, policy.policy.reconcile old (some new) = .ok edits ∧
      replay policy.placement old edits = policy.policy.result policy.regime old new := by
  obtain ⟨edits, hOk⟩ := exists_reconcile_eq_ok policy hOld hNew
  exact ⟨edits, hOk, policy.performs.foldl_reconcile hOk⟩

/-- Where entries are only added, at most a reordering is asked for once all new keys are there. -/
theorem reconcile_of_addOnly (hAddOnly : policy.addOnly = true)
    (hList : (policy.policy.keys list).Nodup) (hNew : (policy.policy.keys new).Nodup)
    (hHeld : ∀ key ∈ policy.policy.keys new, key ∈ policy.policy.keys list) :
    policy.policy.reconcile list (some new) = .ok (policy.policy.reordering list new) := by
  refine Policy.reconcile_of_held hList hNew ?_ fun after hAfter => ?_
  · unfold Policy.removals
    split
    · rfl
    · exact if_pos hAddOnly
  · obtain ⟨before, hBefore, hKey⟩ := List.mem_map.mp (hHeld _ (List.mem_map_of_mem hAfter))
    have hUnchanged : policy.change before after = [] := by
      unfold change
      rw [hAddOnly, Bool.true_or, if_pos rfl]
    exact ⟨before, hBefore, hKey, congrArg Except.ok hUnchanged⟩

/-- Where entries are only added, the new keys end up in the new order unless it is crowded. -/
theorem keys_result_iff (hAddOnly : policy.addOnly = true) (hOld : (policy.policy.keys old).Nodup)
    (hNew : (policy.policy.keys new).Nodup) :
    (policy.policy.keys (policy.policy.result .additive old new)).filter
        (policy.policy.keys new).contains = policy.policy.keys new ↔ ¬ policy.Crowded old new := by
  have hKeeps : policy.policy.KeepsKeys .additive old new := fun _ _ _ _ hKey => hKey
  cases hPlacement : policy.placement with
  | append =>
      refine iff_of_true (Policy.keys_result hOld hNew hKeeps (.inl hPlacement) rfl) ?_
      rintro ⟨-, hAtPosition, -⟩
      cases hPlacement.symm.trans hAtPosition
  | atPosition =>
      have hOrder : policy.policy.outOfOrder old new = false ↔
          (old.map Entry.key).filter (new.map Entry.key).contains =
            (new.map Entry.key).filter (old.map Entry.key).contains := by
        simp only [Policy.outOfOrder, EditPolicy.policy, hPlacement, bne_eq_false_iff_eq]
        rfl
      cases hOut : policy.policy.outOfOrder old new with
      | true =>
          refine iff_of_true (Policy.keys_result_of_outOfOrder hOld hNew hKeeps hOut rfl) ?_
          rintro ⟨-, -, hInOrder, -⟩
          cases hOut.symm.trans (hOrder.mpr hInOrder)
      | false =>
          rw [Policy.keys_result_of_inOrder hNew hKeeps hOut,
            Policy.keys_placed_iff hPlacement hOld hNew hOut]
          refine not_congr ⟨fun hObstructed => ?_, fun hCrowded => hCrowded.2.2.2⟩
          exact ⟨hAddOnly, hPlacement, hOrder.mp hOut, hObstructed⟩

/-- A list that has all new keys is in order after a reordering. -/
theorem reconcile_reordered (hAddOnly : policy.addOnly = true)
    (hList : (policy.policy.keys list).Nodup) (hNew : (policy.policy.keys new).Nodup)
    (hHeld : ∀ key ∈ policy.policy.keys new, key ∈ policy.policy.keys list) :
    policy.policy.reconcile (replay policy.placement list [.reorder (new.map Entry.key)])
      (some new) = .ok [] := by
  generalize hArranged : replay policy.placement list [.reorder (new.map Entry.key)] = arranged
  have hArrange : arranged = arrange policy.policy.key (policy.policy.keys new) list := by
    rw [← hArranged]
    exact policy.performs.reorder rfl hNew list
  have hPerm : (policy.policy.keys arranged).Perm (policy.policy.keys list) := by
    rw [hArrange]
    exact arrangeBy_perm.map _
  have hAll : ((policy.policy.keys list).filter (policy.policy.keys new).contains).Perm
      (policy.policy.keys new) := by
    refine (List.perm_ext_iff_of_nodup (hList.filter _) hNew).mpr fun key => ?_
    rw [List.mem_filter, List.contains_iff_mem]
    exact ⟨And.right, fun hKey => ⟨hHeld key hKey, hKey⟩⟩
  have hOrder : (policy.policy.keys arranged).filter (policy.policy.keys new).contains =
      policy.policy.keys new := by
    rw [hArrange]
    exact keys_arrange hNew hAll
  rw [reconcile_of_addOnly hAddOnly (hPerm.nodup_iff.mpr hList) hNew fun key hKey =>
    hPerm.mem_iff.mpr (hHeld key hKey), Policy.reordering_eq_nil hOrder]

/--
One pass settles a list, whatever the remote can do: a second one asks for nothing, and the new keys
are there in the new order. The exception is a crowded list. What the second pass asks for there is
the reordering that the first one failed to ask for, and nothing is left to do after it.
-/
theorem reconcile_settles (policy : EditPolicy) {old new : List Entry}
    (hOld : (old.map Entry.key).Nodup) (hNew : (new.map Entry.key).Nodup) :
    ∃ edits applied, policy.policy.reconcile old (some new) = .ok edits ∧
      replay policy.placement old edits = applied ∧
      (¬ policy.Crowded old new →
        policy.policy.reconcile applied (some new) = .ok [] ∧
          (applied.map Entry.key).filter (new.map Entry.key).contains = new.map Entry.key) ∧
      (policy.Crowded old new →
        policy.policy.reconcile applied (some new) = .ok [.reorder (new.map Entry.key)] ∧
          (applied.map Entry.key).filter (new.map Entry.key).contains ≠ new.map Entry.key ∧
            policy.policy.reconcile (replay policy.placement applied [.reorder (new.map Entry.key)])
              (some new) = .ok []) := by
  have hOldKeys : (policy.policy.keys old).Nodup := hOld
  have hNewKeys : (policy.policy.keys new).Nodup := hNew
  obtain ⟨edits, hEdits, hApplied⟩ := reconcile_replays policy hOldKeys hNewKeys
  refine ⟨edits, _, hEdits, hApplied, ?_⟩
  cases hAddOnly : policy.addOnly with
  | false =>
      have hExact : policy.regime = .exact := by
        rw [regime, hAddOnly]
        rfl
      have hNothing : ∀ entry ∈ new, policy.policy.change entry entry = .ok [] := by
        intro entry _
        refine congrArg Except.ok ?_
        unfold change
        rw [beq_self_eq_true, Bool.or_true, if_pos rfl]
      rw [hExact, Policy.result_exact hOldKeys hNewKeys rfl]
      refine ⟨fun _ => ⟨Policy.reconcile_self hNewKeys hNothing, ?_⟩, fun hCrowded => ?_⟩
      · exact List.filter_eq_self.mpr fun key hKey => List.contains_iff_mem.mpr hKey
      · cases hAddOnly.symm.trans hCrowded.1
  | true =>
      have hAdditive : policy.regime = .additive := by
        rw [regime, hAddOnly]
        rfl
      have hKeeps : policy.policy.KeepsKeys .additive old new := fun _ _ _ _ hKey => hKey
      have hNodup := Policy.nodup_keys_result hOldKeys hNewKeys hKeeps
      have hHeld := fun key => @Policy.mem_keys_result _ _ _ _ old new hOldKeys hNewKeys hKeeps key
      have hInOrder := keys_result_iff hAddOnly hOldKeys hNewKeys
      rw [hAdditive, reconcile_of_addOnly hAddOnly hNodup hNewKeys hHeld]
      refine ⟨fun hClear => ?_, fun hCrowded => ?_⟩
      · have hKeys := hInOrder.mpr hClear
        exact ⟨congrArg Except.ok (Policy.reordering_eq_nil hKeys), hKeys⟩
      · have hKeys := fun hKeys => hInOrder.mp hKeys hCrowded
        exact ⟨congrArg Except.ok (Policy.reordering_of_held hHeld hKeys), hKeys,
          reconcile_reordered hAddOnly hNodup hNewKeys hHeld⟩

theorem reconcile_settles_additive :
    (([⟨"x", 0⟩, ⟨"a", 0⟩] : List Entry).map Entry.key).Nodup ∧
      (([⟨"a", 0⟩, ⟨"b", 0⟩] : List Entry).map Entry.key).Nodup ∧
        ∃ edits applied,
          EditPolicy.additive.policy.reconcile [⟨"x", 0⟩, ⟨"a", 0⟩]
            (some [⟨"a", 0⟩, ⟨"b", 0⟩]) = .ok edits ∧
          replay .append [⟨"x", 0⟩, ⟨"a", 0⟩] edits = applied ∧
            EditPolicy.additive.policy.reconcile applied (some [⟨"a", 0⟩, ⟨"b", 0⟩]) = .ok [] ∧
              (applied.map Entry.key).filter ["a", "b"].contains = ["a", "b"] := by
  have hOld : (([⟨"x", 0⟩, ⟨"a", 0⟩] : List Entry).map Entry.key).Nodup := by decide
  have hNew : (([⟨"a", 0⟩, ⟨"b", 0⟩] : List Entry).map Entry.key).Nodup := by decide
  have hClear : ¬ EditPolicy.additive.Crowded [⟨"x", 0⟩, ⟨"a", 0⟩] [⟨"a", 0⟩, ⟨"b", 0⟩] := by
    rintro ⟨-, hAtPosition, -⟩
    cases hAtPosition
  obtain ⟨edits, applied, hEdits, hApplied, hSettled, -⟩ :=
    reconcile_settles .additive hOld hNew
  exact ⟨hOld, hNew, edits, applied, hEdits, hApplied, hSettled hClear⟩

/-- On a crowded list one pass leaves the second entry before the first one. -/
theorem reconcile_unsettled : ¬ ∀ (policy : EditPolicy) (old new : List Entry),
    (old.map Entry.key).Nodup → (new.map Entry.key).Nodup →
      ∀ edits, policy.policy.reconcile old (some new) = .ok edits →
        policy.policy.reconcile (replay policy.placement old edits) (some new) = .ok [] ∧
          ((replay policy.placement old edits).map Entry.key).filter
            (new.map Entry.key).contains = (new.map Entry.key).filter
              ((replay policy.placement old edits).map Entry.key).contains := by
  intro hSettles
  have hAgain := hSettles ⟨.atPosition, false, true⟩ [⟨"x", 0⟩, ⟨"a", 0⟩] [⟨"a", 0⟩, ⟨"b", 0⟩]
    (by decide) (by decide) [.add ⟨"b", 0⟩ 1] (by decide)
  exact absurd hAgain.1 (by decide)

end EditPolicy

end CatalogSync.KeyedList
