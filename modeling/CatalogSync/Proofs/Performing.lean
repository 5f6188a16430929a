import CatalogSync.Proofs.Reconciling

/-!
# Performing the actions of a reconciliation

The actions of a reconciliation are performed one after another on a list that may lie deep inside
of a resource. `Policy.Performs` says what a remote does with each kind of action, wherever the list
lies; from it follows, phase by phase, that the remote ends up with `Policy.result`.

## Main results

* `Policy.foldl_removeEach`: elements that are removed one by one are removed.
* `Policy.Performs.foldl_removals`, `Policy.Performs.foldl_additions`,
  `Policy.Performs.foldl_changes`, `Policy.Performs.foldl_reordering`: what each phase does.
* `Policy.Performs.foldl_reconcile`: the actions of a reconciliation leave the result.
-/

namespace CatalogSync.KeyedList.Policy

variable {ε α S : Type} {policy : Policy ε α} {regime : Regime ε} {old new list : List ε}
  {actions : List α}

/-! ## The phases -/

/-- What a remote does with the actions of a policy on a list that lies inside of something larger.
-/
structure Performs (policy : Policy ε α) (regime : Regime ε) (step : S → α → S)
    (embed : List ε → S) : Prop where
  remove : ∀ removed list, (policy.remove removed).foldl step (embed list) =
    embed (if regime.removes then
      list.filter fun element => !(policy.keys removed).contains (policy.key element) else list)
  add : ∀ list element position,
    step (embed list) (policy.add element position) = embed (policy.place list element position)
  change : ∀ {before after actions}, policy.key before = policy.key after →
    policy.change before after = .ok actions →
      policy.key (regime.merge before after) = policy.key after ∧
        ∀ front back, (policy.keys (front ++ before :: back)).Nodup →
          actions.foldl step (embed (front ++ before :: back)) =
            embed (front ++ regime.merge before after :: back)
  reorder : ∀ {new action}, policy.reorder new = some action → (policy.keys new).Nodup →
    ∀ list, step (embed list) action = embed (arrange policy.key (policy.keys new) list)

/-- Among different keys the elements around one have other keys. -/
theorem key_ne_of_mem_around {front back : List ε} {element other : ε}
    (hNodup : (policy.keys (front ++ element :: back)).Nodup) (hOther : other ∈ front ++ back) :
    policy.key other ≠ policy.key element := by
  rw [keys, List.map_append, List.map_cons, List.nodup_middle, ← List.map_append] at hNodup
  intro hSame
  exact (List.nodup_cons.mp hNodup).1 (hSame ▸ List.mem_map_of_mem hOther)

theorem not_mem_keys_front {front back : List ε} {element : ε}
    (hNodup : (policy.keys (front ++ element :: back)).Nodup) :
    ¬ policy.key element ∈ policy.keys front := by
  intro hFront
  obtain ⟨other, hOther, hSame⟩ := List.mem_map.mp hFront
  exact key_ne_of_mem_around hNodup (List.mem_append_left _ hOther) hSame

variable {step : S → α → S} {embed : List ε → S}

/-- Elements that are removed one by one are removed. -/
theorem foldl_removeEach (key : ε → String) (act : String → α) (embed : List ε → S)
    (hStep : ∀ list removed,
      step (embed list) (act removed) = embed (list.filter fun element => key element != removed))
    (removed list : List ε) :
    (removed.map fun element => act (key element)).foldl step (embed list) =
      embed (list.filter fun element => !(removed.map key).contains (key element)) := by
  induction removed generalizing list with
  | nil => simp
  | cons head tail ih =>
      rw [List.map_cons, List.foldl_cons, hStep, ih, List.filter_filter]
      congr 1
      refine List.filter_congr fun element _ => ?_
      rw [List.map_cons, List.contains_cons, Bool.not_or, Bool.and_comm]
      rfl

theorem Performs.foldl_removals (hPerforms : policy.Performs regime step embed) :
    (policy.removals old new).foldl step (embed old) = embed (policy.kept regime old new) := by
  unfold removals
  split
  · rename_i hNone
    have hAll : ∀ element ∈ old, (policy.keys new).contains (policy.key element) = true := by
      simpa [missingFrom] using hNone
    unfold kept
    rw [List.filter_eq_self.mpr hAll, ite_self, List.foldl_nil]
  · rename_i hSome
    rw [hPerforms.remove, kept]
    congr 2
    refine List.filter_congr fun element hElement => ?_
    rw [Bool.eq_iff_iff, Bool.not_eq_true', ← Bool.not_eq_true, List.contains_iff_mem,
      List.contains_iff_mem]
    constructor
    · intro hKept
      by_contra hNew
      refine hKept (List.mem_map_of_mem (List.mem_filter.mpr ⟨hElement, ?_⟩))
      simpa using hNew
    · intro hNew hRemoved
      obtain ⟨other, hOther, hKey⟩ := List.mem_map.mp hRemoved
      have hLacks := (List.mem_filter.mp hOther).2
      rw [hKey] at hLacks
      simp [hNew] at hLacks

theorem Performs.foldl_additions (hPerforms : policy.Performs regime step embed)
    (entries : List (ε × Nat)) (list : List ε) :
    (entries.filterMap fun (element, position) =>
        if (policy.keys old).contains (policy.key element) then none
        else some (policy.add element position)).foldl step (embed list) =
      embed (entries.foldl (policy.placeNew old) list) := by
  induction entries generalizing list with
  | nil => rfl
  | cons entry rest ih =>
      obtain ⟨element, position⟩ := entry
      by_cases hOld : (policy.keys old).contains (policy.key element) = true
      · simp only [List.filterMap_cons, List.foldl_cons, placeNew, if_pos hOld]
        exact ih list
      · simp only [List.filterMap_cons, List.foldl_cons, placeNew, if_neg hOld, hPerforms.add]
        exact ih _

/-- Merging one element of a list with different keys is what the first of several changes does. -/
theorem map_changed_cons {front back rest : List ε} {before after : ε}
    (hList : (policy.keys (front ++ before :: back)).Nodup)
    (hRest : (policy.keys (after :: rest)).Nodup)
    (hOld : policy.key before ∈ policy.keys old) (hKey : policy.key before = policy.key after)
    (hMerged : policy.key (regime.merge before after) = policy.key after) :
    (front ++ before :: back).map (policy.changed regime old (after :: rest)) =
      (front ++ regime.merge before after :: back).map (policy.changed regime old rest) := by
  have hOthers : ∀ element ∈ front ++ back, policy.changed regime old (after :: rest) element =
      policy.changed regime old rest element := fun element hElement =>
    changed_cons_of_ne (hKey ▸ key_ne_of_mem_around hList hElement)
  have hLast : ¬ policy.key (regime.merge before after) ∈ policy.keys rest :=
    hMerged ▸ (List.nodup_cons.mp hRest).1
  rw [List.map_append, List.map_cons, List.map_append, List.map_cons, changed_of_not_mem_new hLast,
    changed_of_mem hOld hRest (List.mem_cons_self ..) hKey.symm,
    List.map_congr_left fun element hElement => hOthers element (List.mem_append_left _ hElement),
    List.map_congr_left fun element hElement => hOthers element (List.mem_append_right _ hElement)]

/-- The changes are made on the elements that are there, which are the old ones. -/
theorem Performs.foldl_changes (hPerforms : policy.Performs regime step embed) {rest : List ε}
    (hOk : policy.changes old rest = .ok actions) (hList : (policy.keys list).Nodup)
    (hRest : (policy.keys rest).Nodup)
    (hHeld : ∀ after ∈ rest, ∀ before, policy.find? old (policy.key after) = some before →
      before ∈ list) :
    actions.foldl step (embed list) = embed (list.map (policy.changed regime old rest)) := by
  induction rest generalizing list actions with
  | nil =>
      cases hOk
      have hSame : list.map (policy.changed regime old []) = list :=
        (List.map_congr_left fun element _ => changed_of_not_mem_new List.not_mem_nil).trans
          (List.map_id list)
      rw [hSame, List.foldl_nil]
  | cons after rest ih =>
      have hLater : ∀ other ∈ rest, ∀ before, policy.find? old (policy.key other) = some before →
          before ∈ list := fun other hOther => hHeld other (List.mem_cons_of_mem _ hOther)
      obtain ⟨hApart, hNodup⟩ := List.nodup_cons.mp hRest
      obtain ⟨first, others, hOthers, rfl, hFirst⟩ := of_changes_cons hOk
      rcases hFirst with ⟨hNone, rfl⟩ | ⟨before, hFind, hChange⟩
      · rw [List.nil_append, ih hOthers hList hNodup hLater]
        congr 1
        refine List.map_congr_left fun element _ => ?_
        by_cases hKey : policy.key element = policy.key after
        · have hOld : ¬ policy.key element ∈ policy.keys old := by
            rw [hKey]
            exact find?_eq_none_iff.mp hNone
          rw [changed_of_not_mem hOld, changed_of_not_mem hOld]
        · exact (changed_cons_of_ne hKey).symm
      · have hKey : policy.key before = policy.key after := key_of_find? hFind
        have hOld : policy.key before ∈ policy.keys old :=
          List.mem_map_of_mem (List.mem_of_find?_eq_some hFind)
        obtain ⟨front, back, rfl⟩ :=
          List.append_of_mem (hHeld after (List.mem_cons_self ..) before hFind)
        obtain ⟨hMerged, hStep⟩ := hPerforms.change hKey hChange
        have hKeys : policy.keys (front ++ regime.merge before after :: back) =
            policy.keys (front ++ before :: back) := by
          simp only [keys, List.map_append, List.map_cons, hMerged, hKey]
        -- A merged element need not be an old one, but no later change looks for its key.
        have hStays : ∀ other ∈ rest, ∀ found, policy.find? old (policy.key other) = some found →
            found ∈ front ++ regime.merge before after :: back := by
          intro other hOther found hFound
          rcases List.mem_append.mp (hLater other hOther found hFound) with hFront | hBack
          · exact List.mem_append_left _ hFront
          · rcases List.mem_cons.mp hBack with rfl | hBack
            · refine absurd ?_ hApart
              rw [← hKey, key_of_find? hFound]
              exact List.mem_map_of_mem hOther
            · exact List.mem_append_right _ (List.mem_cons_of_mem _ hBack)
        rw [List.foldl_append, hStep front back hList, ih hOthers (hKeys ▸ hList) hNodup hStays,
          map_changed_cons hList hRest hOld hKey hMerged]

theorem Performs.foldl_reordering (hPerforms : policy.Performs regime step embed)
    (hNew : (policy.keys new).Nodup) :
    (policy.reordering old new).foldl step (embed list) = embed (policy.settled old new list) := by
  unfold reordering settled
  cases policy.outOfOrder old new with
  | false => rfl
  | true =>
      cases hReorder : policy.reorder new with
      | none => rfl
      | some action => exact hPerforms.reorder hReorder hNew list

/-! ## Performing all actions -/

/-- If all changes can be made, then each of them can. -/
theorem change_of_changes {before after : ε} (hOk : policy.changes old new = .ok actions)
    (hOld : (policy.keys old).Nodup) (hBefore : before ∈ old) (hAfter : after ∈ new)
    (hKey : policy.key before = policy.key after) :
    ∃ change, policy.change before after = .ok change := by
  induction new generalizing actions with
  | nil => exact absurd hAfter List.not_mem_nil
  | cons element rest ih =>
      obtain ⟨first, others, hOthers, -, hFirst⟩ := of_changes_cons hOk
      rcases List.mem_cons.mp hAfter with rfl | hRest
      · have hFind := (find?_eq_some_iff hOld).mpr ⟨hBefore, hKey⟩
        rcases hFirst with ⟨hNone, -⟩ | ⟨found, hFound, hChange⟩
        · rw [hFind] at hNone
          cases hNone
        · rw [hFind] at hFound
          cases hFound
          exact ⟨first, hChange⟩
      · exact ih hOthers hRest

theorem Performs.keepsKeys (hPerforms : policy.Performs regime step embed)
    (hOld : (policy.keys old).Nodup) (hOk : policy.changes old new = .ok actions) :
    policy.KeepsKeys regime old new := by
  intro before hBefore after hAfter hKey
  obtain ⟨change, hChange⟩ := change_of_changes hOk hOld hBefore hAfter hKey
  exact (hPerforms.change hKey hChange).1

/-- The actions of a reconciliation, performed on the old list, leave the result. -/
theorem Performs.foldl_reconcile (hPerforms : policy.Performs regime step embed)
    (hOk : policy.reconcile old (some new) = .ok actions) :
    actions.foldl step (embed old) = embed (policy.result regime old new) := by
  obtain ⟨hOld, hNew, changed, hChanges, rfl⟩ := reconcile_eq_ok_iff.mp hOk
  have hHeld : ∀ after ∈ new, ∀ before, policy.find? old (policy.key after) = some before →
      before ∈ policy.placed regime old new := by
    intro after hAfter before hFind
    refine placed_perm.mem_iff.mpr (List.mem_append_left _ ?_)
    have hShared : before ∈ old.filter fun element =>
        (policy.keys new).contains (policy.key element) := by
      refine List.mem_filter.mpr ⟨List.mem_of_find?_eq_some hFind, ?_⟩
      rw [List.contains_iff_mem, key_of_find? hFind]
      exact List.mem_map_of_mem hAfter
    rw [← filter_kept policy regime] at hShared
    exact (List.mem_filter.mp hShared).1
  rw [List.foldl_append, List.foldl_append, List.foldl_append, hPerforms.foldl_removals, additions,
    hPerforms.foldl_additions]
  rw [show new.zipIdx.foldl (policy.placeNew old) (policy.kept regime old new) =
    policy.placed regime old new from rfl, hPerforms.foldl_changes hChanges
      (nodup_keys_placed hOld hNew) hNew hHeld, hPerforms.foldl_reordering hNew, result]

end CatalogSync.KeyedList.Policy
