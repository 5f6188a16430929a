import CatalogSync.KeyedList.Replay
import CatalogSync.Proofs.Performing

/-!
# Replaying a reconciliation

The plain list performs every edit of its policies, at either placement and with removals one by one
or all at once. A policy that removes and changes entries is exact, so replaying the edits of a
reconciliation rebuilds the new list; one that only adds and reorders keeps what it does not name.

## Main results

* `EditPolicy.performs`: the plain list performs the edits of a policy.
* `EditPolicy.reconcile_rebuilds`: replaying a reconciliation rebuilds the new list.
-/

namespace CatalogSync.KeyedList

/-- Among different keys the last place of a key is its only one. -/
theorem lastRank_eq_idxOf {keys : List String} (hNodup : keys.Nodup) (key : String) :
    lastRank keys key = keys.idxOf key := by
  unfold lastRank
  split
  · rename_i fromEnd hFound
    obtain ⟨hPlace, rfl, -⟩ := List.idxOf?_eq_some_iff.mp hFound
    rw [List.getElem_reverse, hNodup.idxOf_getElem]
  · rename_i hNone
    have hAbsent : key ∉ keys := by simpa using List.idxOf?_eq_none_iff.mp hNone
    exact (List.idxOf_of_notMem hAbsent).symm

namespace EditPolicy

/-- What a plain list does with its entries. -/
def regime (policy : EditPolicy) : Regime Entry := if policy.addOnly then .additive else .exact

variable {policy : EditPolicy}

/-- Removed one by one or all at once, the entries with the keys of the removed ones are gone. -/
theorem foldl_remove (hRemoves : policy.addOnly = false) (removed list : List Entry) :
    (policy.remove removed).foldl (Edit.perform policy.placement) list =
      list.filter fun entry => !(removed.map Entry.key).contains entry.key := by
  unfold remove
  rw [hRemoves, if_neg Bool.false_ne_true]
  split
  · rfl
  · have hStep : ∀ (list : List Entry) (key : String),
        Edit.perform policy.placement list (.remove [key]) =
          list.filter fun entry => entry.key != key := by
      intro list key
      refine List.filter_congr fun entry _ => ?_
      rw [List.contains_cons, List.contains_nil, Bool.or_false]
      rfl
    exact Policy.foldl_removeEach Entry.key (fun key => Edit.remove [key]) id hStep removed list

/-- An entry among others with different keys is changed into the new one. -/
theorem foldl_change (hRemoves : policy.addOnly = false) {before after : Entry}
    {front back : List Entry} (hKey : before.key = after.key)
    (hFront : ¬ before.key ∈ front.map Entry.key) :
    (policy.change before after).foldl (Edit.perform policy.placement)
      (front ++ before :: back) = front ++ after :: back := by
  unfold change
  rw [hRemoves, Bool.false_or]
  cases before with
  | mk key value =>
      cases after with
      | mk other newValue =>
          cases hKey
          split
          · rename_i hValue
            cases beq_iff_eq.mp hValue
            rfl
          · refine modifyFirst_append (fun entry hEntry hSame => ?_) (beq_self_eq_true key)
            exact hFront (beq_iff_eq.mp hSame ▸ List.mem_map_of_mem hEntry)

/-- The plain list performs the edits of every policy. -/
theorem performs (policy : EditPolicy) :
    policy.policy.Performs policy.regime (Edit.perform policy.placement) id where
  remove removed list := by
    cases hRegime : policy.addOnly with
    | true =>
        simp only [EditPolicy.policy, remove, regime, hRegime]
        rfl
    | false =>
        have hGone := foldl_remove hRegime removed list
        simp only [regime, hRegime]
        exact hGone
  add list entry position := rfl
  change {before after actions} hKey hChange := by
    cases hChange
    cases hRegime : policy.addOnly with
    | true =>
        simp only [change, regime, hRegime]
        exact ⟨hKey, fun front back _ => rfl⟩
    | false =>
        simp only [regime, hRegime]
        refine ⟨rfl, fun front back hNodup => ?_⟩
        exact foldl_change hRegime hKey (Policy.not_mem_keys_front hNodup)
  reorder {new action} hAction hNodup list := by
    cases hAction
    refine congrArg (arrangeBy · list) (funext fun entry => ?_)
    exact lastRank_eq_idxOf hNodup entry.key

/-- Lists with different keys are reconciled. -/
theorem exists_reconcile_eq_ok (policy : EditPolicy) {old new : List Entry}
    (hOld : (old.map Entry.key).Nodup) (hNew : (new.map Entry.key).Nodup) :
    ∃ edits, policy.policy.reconcile old (some new) = .ok edits := by
  obtain ⟨changed, hChanges⟩ := @Policy.exists_changes_eq_ok _ _ policy.policy old new
    fun before after => ⟨_, rfl⟩
  exact ⟨_, Policy.reconcile_eq_ok_iff.mpr ⟨hOld, hNew, changed, hChanges, rfl⟩⟩

/--
Replaying a reconciliation rebuilds the new list. Where entries are placed, and whether they are
removed one by one or all at once, makes no difference.
-/
theorem reconcile_rebuilds (policy : EditPolicy) (hRemoves : policy.addOnly = false)
    {old new : List Entry} (hOld : (old.map Entry.key).Nodup) (hNew : (new.map Entry.key).Nodup) :
    ∃ edits, policy.policy.reconcile old (some new) = .ok edits ∧
      replay policy.placement old edits = new := by
  have hOldKeys : (policy.policy.keys old).Nodup := hOld
  have hNewKeys : (policy.policy.keys new).Nodup := hNew
  obtain ⟨changed, hChanges⟩ := @Policy.exists_changes_eq_ok _ _ policy.policy old new
    fun before after => ⟨_, rfl⟩
  have hOk := Policy.reconcile_eq_ok_iff.mpr ⟨hOldKeys, hNewKeys, changed, hChanges, rfl⟩
  have hExact : policy.regime = .exact := by
    rw [regime, hRemoves]
    rfl
  refine ⟨_, hOk, ?_⟩
  have hReplayed := policy.performs.foldl_reconcile hOk
  rw [hExact, Policy.result_exact hOldKeys hNewKeys rfl] at hReplayed
  exact hReplayed

theorem reconcile_rebuilds_atPosition :
    let old : List Entry := [⟨"a", 1⟩, ⟨"b", 2⟩, ⟨"c", 3⟩]
    let new : List Entry := [⟨"d", 4⟩, ⟨"c", 5⟩, ⟨"a", 1⟩]
    atPosition.addOnly = false ∧ (old.map Entry.key).Nodup ∧ (new.map Entry.key).Nodup ∧
      ∃ edits, atPosition.policy.reconcile old (some new) = .ok edits ∧
        replay atPosition.placement old edits = new := by
  intro old new
  have hOld : (old.map Entry.key).Nodup := by decide
  have hNew : (new.map Entry.key).Nodup := by decide
  exact ⟨rfl, hOld, hNew, reconcile_rebuilds atPosition rfl hOld hNew⟩

end EditPolicy

end CatalogSync.KeyedList
