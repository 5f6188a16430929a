import CatalogSync.Proofs.Batches

/-!
# Open drafts are served

On a desk without scripted faults and without hooks nothing can go wrong with a draft that is open:
one whose key is set and whose resource, if there is one, is filed under that key and can be
compared with the draft. The draft ends in success, the remote holds a resource of its key, and the
resources of all other keys are as they were, so open drafts with other keys stay open.

## Main results

* `Desk.process_served`: an open draft is served.
* `Desk.syncBatches_served`: batches of open drafts with different keys are served.
-/

namespace CatalogSync

variable {F : Family} {σ : Type}

/-- No answer of the remote is scripted. -/
structure Remote.Unscripted (remote : Remote F) : Prop where
  lookups : remote.lookupFaults = []
  fetches : remote.fetchScript = []
  creations : remote.createScript = []
  updates : remote.updateFaults = []

namespace Remote.Unscripted

variable {remote : Remote F}

theorem lookup (hUnscripted : remote.Unscripted) (keys : KeySet) :
    (remote.lookup keys).2.Unscripted := by
  refine ⟨?_, hUnscripted.fetches, hUnscripted.creations, hUnscripted.updates⟩
  show remote.lookupFaults.tail = []
  rw [hUnscripted.lookups]
  rfl

theorem create (hUnscripted : remote.Unscripted) (draft : F.Draft) :
    (remote.create draft).2.Unscripted := by
  refine ⟨hUnscripted.lookups, hUnscripted.fetches, ?_, hUnscripted.updates⟩
  show remote.createScript.tail = []
  rw [hUnscripted.creations]
  rfl

theorem update (hUnscripted : remote.Unscripted) (old : F.Resource) (actions : List F.Action) :
    (remote.update old actions).2.Unscripted := by
  refine ⟨hUnscripted.lookups, hUnscripted.fetches, hUnscripted.creations, ?_⟩
  show remote.updateFaults.tail = []
  rw [hUnscripted.updates]
  rfl

end Remote.Unscripted

namespace Desk

variable {options : Options F σ} {draft : F.Draft} {desk before middle after : Desk F σ}

/-- The remote does what it is asked for, and the shelf too. -/
structure Calm (desk : Desk F σ) : Prop where
  remote : desk.world.remote.Unscripted
  shelf : desk.world.shelf.faults = []

theorem Calm.enterIf (hCalm : Calm desk) {asked : Bool} {event : Event F} :
    Calm (desk.enterIf asked event) := by
  constructor
  · rw [enterIf_world]
    exact hCalm.remote
  · rw [enterIf_world]
    exact hCalm.shelf

/-- A draft with a key whose resource, if there is one, is filed under that key. -/
structure Filed (draft : F.Draft) (desk : Desk F σ) : Prop where
  key : F.hasKey draft = true
  resource : ∀ old, desk.world.remote.resources.get? (F.keyOf draft) = some old →
    F.key old = F.keyOf draft

/-- A draft with a key whose resource, if there is one, is filed under that key and can be compared
with the draft. -/
structure Open (draft : F.Draft) (desk : Desk F σ) : Prop where
  key : F.hasKey draft = true
  resource : ∀ old, desk.world.remote.resources.get? (F.keyOf draft) = some old →
    F.key old = F.keyOf draft ∧ ∃ actions, F.diff old draft = .ok actions

theorem Open.filed (hOpen : Open draft desk) : Filed draft desk :=
  ⟨hOpen.key, fun old hOld => (hOpen.resource old hOld).1⟩

/-- A draft stays open while the resource of its key is the same. -/
theorem Open.congr (hOpen : Open draft before)
    (hSame : after.world.remote.resources.get? (F.keyOf draft) =
      before.world.remote.resources.get? (F.keyOf draft)) : Open draft after :=
  ⟨hOpen.key, fun old hOld => hOpen.resource old (hSame ▸ hOld)⟩

/-- A draft stays open while nothing is submitted. -/
theorem Open.idle (hOpen : Open draft before) (hIdle : Idle before after) : Open draft after :=
  hOpen.congr (by rw [hIdle.resources])

theorem draftKey_of_hasKey (hKey : F.hasKey draft = true) :
    F.draftKey draft = some (F.keyOf draft) := by
  unfold Family.hasKey at hKey
  cases hDraft : F.draftKey draft with
  | some key =>
      unfold Family.keyOf
      rw [hDraft]
      rfl
  | none =>
      unfold Family.keyOf at hKey
      rw [hDraft] at hKey
      cases hKey

/-- A draft is in effect: it ended in success, and its resource exists. -/
structure InEffect (draft : F.Draft) (desk : Desk F σ) : Prop where
  ended : ∃ phase remote, Event.ended draft phase remote ∈ desk.journal ∧ phase.isSuccess = true
  stored : F.keyOf draft ∈ desk.world.remote.resources.keys

/-- What serving a list of drafts does: all of them are in effect, and nothing else has changed. -/
structure Serves (drafts : List F.Draft) (outcomes : List (String × Phase))
    (before after : Desk F σ) : Prop where
  success : ∀ outcome ∈ outcomes, outcome.2.isSuccess = true
  calm : Calm after
  failed : after.tally.failed = before.tally.failed
  others : ∀ key, ¬ key ∈ drafts.map F.keyOf →
    after.world.remote.resources.get? key = before.world.remote.resources.get? key
  keys : ∀ key ∈ before.world.remote.resources.keys, key ∈ after.world.remote.resources.keys
  journal : ∀ event ∈ before.journal, event ∈ after.journal
  effect : ∀ draft ∈ drafts, InEffect draft after

theorem InEffect.mono (hEffect : InEffect draft before)
    (hJournal : ∀ event ∈ before.journal, event ∈ after.journal)
    (hKeys : ∀ key ∈ before.world.remote.resources.keys,
      key ∈ after.world.remote.resources.keys) : InEffect draft after := by
  obtain ⟨phase, remote, hEvent, hSuccess⟩ := hEffect.ended
  exact ⟨⟨phase, remote, hJournal _ hEvent, hSuccess⟩, hKeys _ hEffect.stored⟩

/-- A draft stays in effect while nothing is submitted. -/
theorem InEffect.idle (hEffect : InEffect draft before) (hIdle : Idle before after) :
    InEffect draft after := by
  obtain ⟨notices, hJournal, -⟩ := hIdle.journal
  refine hEffect.mono (fun event hEvent => ?_) fun key hKey => ?_
  · rw [hJournal]
    exact List.mem_append_left _ hEvent
  · rw [hIdle.resources]
    exact hKey

theorem Serves.nil (hCalm : Calm desk) : Serves (F := F) [] [] desk desk where
  success := by simp
  calm := hCalm
  failed := rfl
  others _ _ := rfl
  keys _ hKey := hKey
  journal _ hEvent := hEvent
  effect := by simp

theorem Serves.append {drafts more : List F.Draft} {outcomes others : List (String × Phase)}
    (hFirst : Serves drafts outcomes before middle) (hLast : Serves more others middle after) :
    Serves (drafts ++ more) (outcomes ++ others) before after where
  success outcome hOutcome := by
    rcases List.mem_append.mp hOutcome with hMem | hMem
    · exact hFirst.success outcome hMem
    · exact hLast.success outcome hMem
  calm := hLast.calm
  failed := hLast.failed.trans hFirst.failed
  others key hKey := by
    rw [List.map_append, List.mem_append, not_or] at hKey
    exact (hLast.others key hKey.2).trans (hFirst.others key hKey.1)
  keys key hKey := hLast.keys key (hFirst.keys key hKey)
  journal event hEvent := hLast.journal event (hFirst.journal event hEvent)
  effect draft hDraft := by
    rcases List.mem_append.mp hDraft with hMem | hMem
    · exact (hFirst.effect draft hMem).mono hLast.journal hLast.keys
    · exact hLast.effect draft hMem

/-- Open drafts with other keys than those served stay open. -/
theorem Serves.open {drafts : List F.Draft} {outcomes : List (String × Phase)}
    (hServes : Serves drafts outcomes before after) (hOpen : Open draft before)
    (hOther : ¬ F.keyOf draft ∈ drafts.map F.keyOf) : Open draft after :=
  hOpen.congr (hServes.others _ hOther)

/-! ## One draft -/

/-- What syncing an open draft does. -/
structure Handles (draft : F.Draft) (phase : Phase) (before after : Desk F σ) : Prop where
  success : phase.isSuccess = true
  calm : Calm after
  others : ∀ key, key ≠ F.keyOf draft →
    after.world.remote.resources.get? key = before.world.remote.resources.get? key
  stored : F.keyOf draft ∈ after.world.remote.resources.keys

/-- A draft without a resource is created. -/
theorem create_of_fresh (hHookless : options.Hookless) (hUnscripted : desk.world.remote.Unscripted)
    (hKey : F.hasKey draft = true)
    (hFresh : desk.world.remote.resources.get? (F.keyOf draft) = none) :
    desk.create options draft = (.created,
      (desk.submitCreation draft draft).2.enterIf options.announcesCreated
        (.created (F.materialize draft (desk.world.remote.ids desk.world.remote.issued)))) := by
  have hSubmitted : (desk.submitCreation draft draft).1 =
      .ok (some (F.materialize draft (desk.world.remote.ids desk.world.remote.issued))) :=
    Remote.createAnswer_of_fresh hUnscripted.creations (draftKey_of_hasKey hKey) hFresh
  simp only [create, askBeforeCreate_of_hookless hHookless, hSubmitted]

/-- The resource of a draft without one is put under its key. -/
theorem submitCreation_of_fresh (hUnscripted : desk.world.remote.Unscripted)
    (hKey : F.hasKey draft = true)
    (hFresh : desk.world.remote.resources.get? (F.keyOf draft) = none) :
    (desk.submitCreation draft draft).2.world.remote.resources =
      desk.world.remote.resources.insert (F.keyOf draft)
        (F.materialize draft (desk.world.remote.ids desk.world.remote.issued)) := by
  show (desk.world.remote.create draft).2.resources = _
  rw [Remote.create_write, Remote.creation,
    Remote.createAnswer_of_fresh hUnscripted.creations (draftKey_of_hasKey hKey) hFresh]
  rfl

/-- A resource that differs from its draft is updated. -/
theorem update_of_differs (hHookless : options.Hookless)
    (hUnscripted : desk.world.remote.Unscripted)
    {old : F.Resource} {action : F.Action} {rest : List F.Action}
    (hDiff : F.diff old draft = .ok (action :: rest))
    (hStored : desk.world.remote.resources.get? (F.key old) = some old) :
    desk.update options draft old = (.updated,
      (desk.submitUpdate draft old (action :: rest)).2.enterIf options.announcesUpdated
        (.updated (F.apply old (action :: rest)) (action :: rest))) := by
  have hSubmitted : (desk.submitUpdate draft old (action :: rest)).1 =
      .ok (F.apply old (action :: rest)) :=
    Remote.updateAnswer_of_stored hUnscripted.updates hStored
  simp only [update, attemptUpdate, hDiff, askBeforeUpdate_of_hookless hHookless, hSubmitted]

/-- A resource that is updated stays under its key. -/
theorem submitUpdate_of_stored (hUnscripted : desk.world.remote.Unscripted) {old : F.Resource}
    (actions : List F.Action)
    (hStored : desk.world.remote.resources.get? (F.key old) = some old) :
    (desk.submitUpdate draft old actions).2.world.remote.resources =
      desk.world.remote.resources.insert (F.key old) (F.apply old actions) := by
  show (desk.world.remote.update old actions).2.resources = _
  rw [Remote.update_write, Remote.change,
    Remote.updateAnswer_of_stored hUnscripted.updates hStored]
  rfl

theorem create_handles (hHookless : options.Hookless) (hCalm : Calm desk)
    (hKey : F.hasKey draft = true)
    (hFresh : desk.world.remote.resources.get? (F.keyOf draft) = none) :
    Handles draft (desk.create options draft).1 desk (desk.create options draft).2 := by
  have hWritten := submitCreation_of_fresh hCalm.remote hKey hFresh
  have hCall : Calm (desk.submitCreation draft draft).2 := ⟨hCalm.remote.create draft, hCalm.shelf⟩
  rw [create_of_fresh hHookless hCalm.remote hKey hFresh]
  refine ⟨rfl, hCall.enterIf, fun key hOther => ?_, ?_⟩
  · rw [enterIf_world, hWritten, KeyMap.get?_insert_ne hOther]
  · rw [enterIf_world, hWritten, KeyMap.keys_insert]
    exact KeySet.mem_insert.mpr (Or.inl rfl)

theorem update_handles (hHookless : options.Hookless) (hCalm : Calm desk) (hOpen : Open draft desk)
    {old : F.Resource} (hOld : desk.world.remote.resources.get? (F.keyOf draft) = some old) :
    Handles draft (desk.update options draft old).1 desk (desk.update options draft old).2 := by
  obtain ⟨hKey, actions, hDiff⟩ := hOpen.resource old hOld
  cases actions with
  | nil =>
      have hSame : desk.update options draft old = (.upToDate, desk) := by
        simp only [update, attemptUpdate, hDiff]
      rw [hSame]
      exact ⟨rfl, hCalm, fun _ _ => rfl, KeyMap.mem_keys_iff.mpr ⟨old, hOld⟩⟩
  | cons action rest =>
      have hStored : desk.world.remote.resources.get? (F.key old) = some old := hKey ▸ hOld
      have hWritten :=
        @submitUpdate_of_stored F σ draft desk hCalm.remote old (action :: rest) hStored
      rw [hKey] at hWritten
      have hCall : Calm (desk.submitUpdate draft old (action :: rest)).2 :=
        ⟨hCalm.remote.update old _, hCalm.shelf⟩
      rw [update_of_differs hHookless hCalm.remote hDiff hStored]
      refine ⟨rfl, hCall.enterIf, fun key hOther => ?_, ?_⟩
      · rw [enterIf_world, hWritten, KeyMap.get?_insert_ne hOther]
      · rw [enterIf_world, hWritten, KeyMap.keys_insert]
        exact KeySet.mem_insert.mpr (Or.inl rfl)

/-- An open draft is served. -/
theorem process_served (hHookless : options.Hookless) (hCalm : Calm desk) (hOpen : Open draft desk)
    {old : Option F.Resource} (hOld : old = desk.world.remote.resources.get? (F.keyOf draft)) :
    Serves [draft] [(F.keyOf draft, (desk.process options draft old).1)] desk
      (desk.process options draft old).2 := by
  have hMoves : Moves options draft desk (desk.sync options draft old).2 :=
    sync_moves hHookless.quiet.sparesRemote
  have hHandles : Handles draft (desk.sync options draft old).1 desk
      (desk.sync options draft old).2 := by
    cases old with
    | none => exact create_handles hHookless hCalm hOpen.key hOld.symm
    | some old => exact update_handles hHookless hCalm hOpen hOld.symm
  have hTally : (desk.process options draft old).2.tally.failed = desk.tally.failed := by
    have hSuccess := hHandles.success
    show ((desk.sync options draft old).2.tally.record (desk.sync options draft old).1).failed = _
    rw [sync_tally]
    cases hPhase : (desk.sync options draft old).1 with
    | failed =>
        rw [hPhase] at hSuccess
        cases hSuccess
    | _ => rfl
  refine ⟨?_, ⟨hHandles.calm.remote, hHandles.calm.shelf⟩, hTally, fun key hOther => ?_,
    fun key hKey => ?_, fun event hEvent => ?_, ?_⟩
  · intro outcome hOutcome
    rw [List.mem_singleton.mp hOutcome]
    exact hHandles.success
  · exact hHandles.others key fun hSame => hOther (List.mem_singleton.mpr hSame)
  · exact keeps_of_reflTransGen (P := fun desk => key ∈ desk.world.remote.resources.keys) hMoves
      (fun _ _ hMove hBefore => hMove.keys hBefore) hKey
  · refine List.mem_append_left _ ?_
    exact keeps_of_reflTransGen (P := fun desk => event ∈ desk.journal) hMoves
      (fun _ _ hMove hBefore => hMove.journal hBefore) hEvent
  · intro other hOther
    rw [List.mem_singleton.mp hOther]
    refine ⟨⟨_, _, List.mem_append_right _ (List.mem_singleton_self _), hHandles.success⟩, ?_⟩
    exact hHandles.stored

/-! ## Batches -/

variable {drafts : List F.Draft} {batches : List (List F.Draft)}

theorem processAll_served (hHookless : options.Hookless) (hCalm : Calm desk)
    (hNodup : (drafts.map F.keyOf).Nodup) (hOpen : ∀ draft ∈ drafts, Open draft desk)
    {found : KeyMap F.Resource} (hFound : ∀ draft ∈ drafts,
      (F.draftKey draft).bind found.get? = desk.world.remote.resources.get? (F.keyOf draft)) :
    Serves drafts (processAll options found desk drafts).1 desk
      (processAll options found desk drafts).2 := by
  induction drafts generalizing desk with
  | nil => exact .nil hCalm
  | cons draft rest ih =>
      rw [List.map_cons, List.nodup_cons] at hNodup
      have hFirst := process_served hHookless hCalm (hOpen draft (List.mem_cons_self ..))
        (hFound draft (List.mem_cons_self ..))
      have hApart : ∀ other ∈ rest, ¬ F.keyOf other ∈ [draft].map F.keyOf := by
        intro other hOther hSame
        have hKey : F.keyOf other = F.keyOf draft := List.mem_singleton.mp hSame
        exact hNodup.1 (hKey ▸ List.mem_map_of_mem hOther)
      have hRest := ih hFirst.calm hNodup.2
        (fun other hOther =>
          hFirst.open (hOpen other (List.mem_cons_of_mem _ hOther)) (hApart other hOther))
        fun other hOther => by
          rw [hFirst.others _ (hApart other hOther)]
          exact hFound other (List.mem_cons_of_mem _ hOther)
      exact hFirst.append hRest

/-- Matching resources by key finds for each draft the resource that is filed under its key. -/
theorem found_of_filed (hFiled : ∀ draft ∈ drafts, Filed draft desk) (hDraft : draft ∈ drafts) :
    (F.draftKey draft).bind (KeyMap.ofList ((desk.world.remote.resources.select
        (F.keysOf drafts)).map fun resource => (F.key resource, resource))).get? =
      desk.world.remote.resources.get? (F.keyOf draft) := by
  have hMem : ∀ resource, resource ∈ desk.world.remote.resources.select (F.keysOf drafts) ↔
      ∃ other ∈ drafts, desk.world.remote.resources.get? (F.keyOf other) = some resource := by
    intro resource
    rw [KeyMap.select, List.mem_filterMap]
    constructor
    · rintro ⟨key, hKey, hGet⟩
      obtain ⟨other, hOther, rfl⟩ := List.mem_map.mp (KeySet.mem_ofList.mp hKey)
      exact ⟨other, hOther, hGet⟩
    · rintro ⟨other, hOther, hGet⟩
      exact ⟨F.keyOf other, KeySet.mem_ofList.mpr (List.mem_map_of_mem hOther), hGet⟩
  rw [draftKey_of_hasKey (hFiled draft hDraft).key, Option.bind_some]
  refine KeyMap.get?_ofList_of_agree (fun entry hEntry => ?_) fun resource hGet => ?_
  · obtain ⟨resource, hResource, rfl⟩ := List.mem_map.mp hEntry
    obtain ⟨other, hOther, hGet⟩ := (hMem resource).mp hResource
    show desk.world.remote.resources.get? (F.key resource) = some resource
    rw [(hFiled other hOther).resource resource hGet]
    exact hGet
  · refine List.mem_map.mpr ⟨resource, (hMem resource).mpr ⟨draft, hDraft, hGet⟩, ?_⟩
    rw [(hFiled draft hDraft).resource resource hGet]

theorem syncBatch_served (hHookless : options.Hookless) (hCalm : Calm desk)
    (hNodup : (drafts.map F.keyOf).Nodup) (hOpen : ∀ draft ∈ drafts, Open draft desk) :
    Serves drafts (desk.syncBatch options drafts).1 desk (desk.syncBatch options drafts).2 := by
  unfold syncBatch
  split
  · rename_i hNone
    rw [List.isEmpty_iff.mp hNone]
    exact .nil hCalm
  · have hAnswer : (desk.lookup (F.keysOf drafts)).1 =
        .ok (desk.world.remote.resources.select (F.keysOf drafts)) := by
      show desk.world.remote.lookupAnswer (F.keysOf drafts) = _
      rw [Remote.lookupAnswer, hCalm.remote.lookups]
    have hLooked : Calm (desk.lookup (F.keysOf drafts)).2 :=
      ⟨hCalm.remote.lookup (F.keysOf drafts), hCalm.shelf⟩
    have hLookedOpen : ∀ draft ∈ drafts, Open draft (desk.lookup (F.keysOf drafts)).2 :=
      fun draft hDraft => (hOpen draft hDraft).congr rfl
    have hServes := processAll_served hHookless hLooked hNodup hLookedOpen
      fun draft hDraft => found_of_filed (fun other hOther => (hLookedOpen other hOther).filed) hDraft
    simp only [hAnswer]
    exact ⟨hServes.success, hServes.calm, hServes.failed, hServes.others, hServes.keys,
      hServes.journal, hServes.effect⟩

/-- Batches of open drafts with different keys are served. -/
theorem syncBatches_served (hHookless : options.Hookless) (hCalm : Calm desk)
    (hNodup : (batches.flatten.map F.keyOf).Nodup)
    (hOpen : ∀ draft ∈ batches.flatten, Open draft desk) :
    Serves batches.flatten (syncBatches options desk batches).1 desk
      (syncBatches options desk batches).2 := by
  induction batches generalizing desk with
  | nil => exact .nil hCalm
  | cons batch rest ih =>
      rw [List.flatten_cons, List.map_append, List.nodup_append] at hNodup
      have hFirst := syncBatch_served hHookless hCalm hNodup.1 fun draft hDraft =>
        hOpen draft (List.mem_append_left _ hDraft)
      have hApart : ∀ draft ∈ rest.flatten, ¬ F.keyOf draft ∈ batch.map F.keyOf :=
        fun draft hDraft hSame => hNodup.2.2 _ hSame _ (List.mem_map_of_mem hDraft) rfl
      exact hFirst.append (ih hFirst.calm hNodup.2.1 fun draft hDraft =>
        hFirst.open (hOpen draft (List.mem_append_right _ hDraft)) (hApart draft hDraft))

end Desk

end CatalogSync
