import CatalogSync.Catalog.Families
import CatalogSync.Proofs.Serving
import CatalogSync.Proofs.Wakeup
import Mathlib.Data.List.Nodup

/-!
# A deferred sync computes a closure

Where nothing goes wrong, what an engine makes of a list of drafts does not depend on the order of
the drafts, on the batches or on the calls. The keys on the remote are in the end the closure of the
keys at the beginning: the least set that holds them and the key of every draft whose references it
holds. The drafts with a reference outside of the closure wait, and all others are in effect.

No key is created too early because only fit drafts are processed, and none is missed because no
draft waits for what is there. What remains is the place of each draft: it is in hand, it waits, or
it is in effect, and as long as it is not in effect the resource of its key is untouched.

## Main results

* `Engine.Closing`: every draft handed in has its place.
* `Engine.releaseRound_closing`, `Engine.sync_closing`: rounds and calls keep it.
* `Engine.Settled.mem_keys_iff`, `Engine.Settled.mem_waiting_iff`, `Engine.Settled.get?_iff`: the
  closure tells which keys exist, which drafts wait and what is staged.
* `Engine.sync_closure`: what a number of calls makes of a list of drafts.
-/

namespace CatalogSync

variable {F : Family} {σ : Type}

/-- The least set of keys that holds those of some resources and the key of every draft whose
references it holds. -/
inductive Closure (resources : KeyMap F.Resource) (drafts : List F.Draft) : String → Prop where
  | stored {key : String} (hStored : key ∈ resources.keys) : Closure resources drafts key
  | draft {draft : F.Draft} (hDraft : draft ∈ drafts)
      (hReferences : ∀ reference ∈ F.references draft, Closure resources drafts reference) :
      Closure resources drafts (F.keyOf draft)

/-- Work on the drafts of a list creates no key outside of the closure. -/
theorem Desk.Works.closure {options : Options F σ} {drafts : List F.Draft} {before after : Desk F σ}
    (hQuiet : options.Quiet) (hKeeps : options.KeepsKeys)
    (hWorks : Works options (· ∈ drafts) before after) {key : String}
    (hKey : key ∈ after.world.remote.resources.keys) :
    Closure before.world.remote.resources drafts key := by
  refine keeps_of_reflTransGen (P := fun desk => ∀ key ∈ desk.world.remote.resources.keys,
    Closure before.world.remote.resources drafts key) hWorks ?_ (fun key => .stored) key hKey
  intro earlier later hWork hEarlier key hKey
  cases hWork with
  | idle hIdle => exact hEarlier key (hIdle.resources ▸ hKey)
  | process draft old hFit =>
      rw [process_keys hQuiet hKeeps, mem_keysAfter] at hKey
      rcases hKey with hOld | ⟨-, rfl⟩
      · exact hEarlier key hOld
      · exact .draft hFit.known fun reference hReference =>
          hEarlier reference (hFit.stored reference hReference)

namespace Engine

variable {engine : Engine F σ} {run : Run F σ} {all done hand : List F.Draft}

/-! ## The place of each draft -/

/-- Of the drafts that are handed in, each is in hand, waits, or is in effect; those that are not in
effect, and those that are still to come, are open; and only waiting drafts have a record. -/
structure Closing (engine : Engine F σ) (all done hand : List F.Draft) (run : Run F σ) : Prop where
  calm : run.desk.Calm
  failed : run.desk.tally.failed = 0
  placed : ∀ draft ∈ done, draft ∈ hand ∨ F.keyOf draft ∈ run.waiting.drafts ∨
    Desk.InEffect draft run.desk
  untouched : ∀ draft ∈ all, (draft ∈ done → draft ∈ hand ∨ F.keyOf draft ∈ run.waiting.drafts) →
    Desk.Open draft run.desk
  exact : ∀ key value, run.desk.world.shelf.get? engine.area.container key = some value →
    key ∈ run.waiting.drafts
  waits : ∀ key ∈ run.waiting.drafts, ∃ draft ∈ done, F.keyOf draft = key

theorem eq_of_keyOf (hDistinct : (all.map F.keyOf).Nodup) {draft other : F.Draft}
    (hDraft : draft ∈ all) (hOther : other ∈ all) (hKey : F.keyOf draft = F.keyOf other) :
    draft = other := List.inj_on_of_nodup_map hDistinct hDraft hOther hKey

/-- A step that only looks and reports keeps the place of each draft. -/
theorem Closing.withDesk {desk : Desk F σ} (hClosing : Closing engine all done hand run)
    (hIdle : Desk.Idle run.desk desk) (hCalm : desk.Calm)
    (hFailed : desk.tally.failed = run.desk.tally.failed)
    (hShelf : desk.world.shelf = run.desk.world.shelf) :
    Closing engine all done hand (run.withDesk desk) := by
  refine ⟨hCalm, hFailed.trans hClosing.failed, fun draft hDraft => ?_,
    fun draft hDraft hPlace => (hClosing.untouched draft hDraft hPlace).idle hIdle,
    fun key value hGet => ?_, hClosing.waits⟩
  · rcases hClosing.placed draft hDraft with hHand | hWaits | hEffect
    · exact Or.inl hHand
    · exact Or.inr (Or.inl hWaits)
    · exact Or.inr (Or.inr (hEffect.idle hIdle))
  · refine hClosing.exact key value ?_
    rw [← hShelf]
    exact hGet

/-! ## Parking -/

/-- A draft in hand that is parked waits. -/
theorem park_closing {draft : F.Draft} {missing : KeySet} {rest : List F.Draft}
    (hDistinct : (all.map F.keyOf).Nodup) (hAll : ∀ draft ∈ done, draft ∈ all)
    (hClosing : Closing engine all done hand run) (hDone : draft ∈ done)
    (hHand : ∀ other, other ∈ hand ↔ other = draft ∨ other ∈ rest) :
    Closing engine all done rest (engine.park run draft missing) := by
  obtain ⟨hWaiting, hShelf, hTally⟩ := @park_of_calm F σ engine run draft missing hClosing.calm.shelf
  have hIdle := park_idle engine run draft missing
  have hWaits : ∀ key, key ∈ (engine.park run draft missing).waiting.drafts ↔
      key = F.keyOf draft ∨ key ∈ run.waiting.drafts := by
    intro key
    rw [hWaiting]
    exact mem_park_drafts
  refine ⟨⟨?_, ?_⟩, ?_, fun other hOther => ?_, fun other hOther hPlace => ?_, fun key value hGet => ?_,
    fun key hKey => ?_⟩
  · rw [park_remote]
    exact hClosing.calm.remote
  · rw [hShelf]
    exact Area.save_faults_of_calm hClosing.calm.shelf
  · rw [hTally]
    exact hClosing.failed
  · rcases hClosing.placed other hOther with hMem | hOld | hEffect
    · rcases (hHand other).mp hMem with rfl | hRest
      · exact Or.inr (Or.inl ((hWaits _).mpr (Or.inl rfl)))
      · exact Or.inl hRest
    · exact Or.inr (Or.inl ((hWaits _).mpr (Or.inr hOld)))
    · exact Or.inr (Or.inr (hEffect.idle hIdle))
  · refine (hClosing.untouched other hOther fun hMem => ?_).idle hIdle
    rcases hPlace hMem with hRest | hKey
    · exact Or.inl ((hHand other).mpr (Or.inr hRest))
    · rcases (hWaits _).mp hKey with hSame | hOld
      · have hEq := eq_of_keyOf hDistinct hOther (hAll draft hDone) hSame
        exact Or.inl ((hHand other).mpr (Or.inl hEq))
      · exact Or.inr hOld
  · rw [hWaits]
    by_cases hSame : key = F.keyOf draft
    · exact Or.inl hSame
    · rw [park_get?_ne hSame] at hGet
      exact Or.inr (hClosing.exact key value hGet)
  · rcases (hWaits key).mp hKey with rfl | hOld
    · exact ⟨draft, hDone, rfl⟩
    · exact hClosing.waits key hOld

/-- Of the drafts in hand the incomplete ones are parked, the others stay in hand. -/
theorem parkIncomplete_closing {existing : KeySet} {drafts kept : List F.Draft}
    (hDistinct : (all.map F.keyOf).Nodup) (hAll : ∀ draft ∈ done, draft ∈ all)
    (hDone : ∀ draft ∈ drafts, draft ∈ done)
    (hClosing : Closing engine all done (kept ++ drafts) run) :
    Closing engine all done (kept ++ (engine.parkIncomplete existing run drafts).1)
      (engine.parkIncomplete existing run drafts).2 := by
  induction drafts generalizing run kept with
  | nil => exact hClosing
  | cons draft rest ih =>
      have hRest : ∀ other ∈ rest, other ∈ done := fun other hOther =>
        hDone other (List.mem_cons_of_mem _ hOther)
      simp only [parkIncomplete]
      split
      · rw [List.append_cons] at hClosing ⊢
        exact ih hRest hClosing
      · refine ih hRest (park_closing hDistinct hAll hClosing (hDone draft (List.mem_cons_self ..))
          fun other => ?_)
        simp only [List.mem_append, List.mem_cons]
        tauto

/-- Asking the remote which references exist leaves drafts in hand that are complete. -/
theorem ready_closing {drafts : List F.Draft} (hDistinct : (all.map F.keyOf).Nodup)
    (hAll : ∀ draft ∈ done, draft ∈ all) (hDone : ∀ draft ∈ drafts, draft ∈ done)
    (hClosing : Closing engine all done drafts run) :
    Closing engine all done (engine.ready World.askRemote run drafts).1
      (engine.ready World.askRemote run drafts).2 := by
  by_cases hNone : (F.referencesOf drafts).isEmpty = true
  · rw [ready_of_no_references hNone]
    exact hClosing
  · have hAsked : Closing engine all done ([] ++ drafts) (run.withDesk
        ((run.desk.enter (.resolving (F.referencesOf drafts))).withWorld
          (World.askRemote run.desk.world (F.referencesOf drafts)).2)) :=
      hClosing.withDesk ⟨rfl, .single rfl, .single rfl⟩
        ⟨⟨hClosing.calm.remote.lookups, hClosing.calm.remote.fetches,
          hClosing.calm.remote.creations, hClosing.calm.remote.updates⟩, hClosing.calm.shelf⟩ rfl rfl
    simp only [ready, if_neg hNone]
    exact parkIncomplete_closing hDistinct hAll hDone hAsked

/-! ## Settling -/

/-- Once the drafts in hand are served and settled, none is in hand. -/
theorem settle_closing (run : Run F σ) {synced : Desk F σ} {outcomes : List (String × Phase)}
    (hDistinct : (all.map F.keyOf).Nodup) (hAll : ∀ draft ∈ done, draft ∈ all)
    (hDone : ∀ draft ∈ hand, draft ∈ done) (hClosing : Closing engine all done hand run)
    (hServes : Desk.Serves hand outcomes run.desk synced)
    (hOutcomes : outcomes.map (·.1) = hand.map F.keyOf)
    (hShelf : synced.world.shelf = run.desk.world.shelf) :
    Closing engine all done [] (engine.settle (run.withDesk synced) outcomes) := by
  have hIdle : Desk.Idle synced (engine.settle (run.withDesk synced) outcomes).desk :=
    settle_idle engine (run.withDesk synced) outcomes
  have hWaits : ∀ key, key ∈ (engine.settle (run.withDesk synced) outcomes).waiting.drafts ↔
      key ∈ run.waiting.drafts ∧ ¬ key ∈ hand.map F.keyOf := by
    intro key
    rw [mem_settle_drafts, hOutcomes]
    rfl
  have hHand : ∀ draft ∈ all, F.keyOf draft ∈ hand.map F.keyOf → draft ∈ hand := by
    intro draft hDraft hKey
    obtain ⟨other, hOther, hSame⟩ := List.mem_map.mp hKey
    rw [eq_of_keyOf hDistinct hDraft (hAll other (hDone other hOther)) hSame.symm]
    exact hOther
  obtain ⟨hFaults, hCleared⟩ := @settle_of_calm F σ engine (run.withDesk synced) outcomes
    hServes.calm.shelf hServes.success
  refine ⟨⟨?_, hFaults⟩, ?_, fun draft hDraft => ?_, fun draft hDraft hPlace => ?_,
    fun key value hGet => ?_, fun key hKey => hClosing.waits key ((hWaits key).mp hKey).1⟩
  · rw [settle_remote]
    exact hServes.calm.remote
  · rw [settle_failed]
    exact hServes.failed.trans hClosing.failed
  · have hServed : draft ∈ hand → Desk.InEffect draft
        (engine.settle (run.withDesk synced) outcomes).desk := fun hMem =>
      (hServes.effect draft hMem).idle hIdle
    rcases hClosing.placed draft hDraft with hMem | hOld | hEffect
    · exact Or.inr (Or.inr (hServed hMem))
    · by_cases hKey : F.keyOf draft ∈ hand.map F.keyOf
      · exact Or.inr (Or.inr (hServed (hHand draft (hAll draft hDraft) hKey)))
      · exact Or.inr (Or.inl ((hWaits _).mpr ⟨hOld, hKey⟩))
    · exact Or.inr (Or.inr ((hEffect.mono hServes.journal hServes.keys).idle hIdle))
  · have hStill : draft ∈ done → F.keyOf draft ∈ run.waiting.drafts ∧
        ¬ F.keyOf draft ∈ hand.map F.keyOf := fun hMem =>
      (hWaits _).mp ((hPlace hMem).resolve_left List.not_mem_nil)
    have hApart : ¬ F.keyOf draft ∈ hand.map F.keyOf := fun hKey =>
      (hStill (hDone draft (hHand draft hDraft hKey))).2 hKey
    have hOpen := hClosing.untouched draft hDraft fun hMem => Or.inr (hStill hMem).1
    exact (hServes.open hOpen hApart).idle hIdle
  · rw [hWaits]
    by_cases hBoth : key ∈ outcomes.map (·.1) ∧ key ∈ (run.withDesk synced).waiting.drafts
    · rw [hCleared key hBoth.1 hBoth.2] at hGet
      cases hGet
    · rw [settle_get?_ne hBoth] at hGet
      have hOld : key ∈ run.waiting.drafts := by
        refine hClosing.exact key value ?_
        rw [← hShelf]
        exact hGet
      exact ⟨hOld, fun hKey => hBoth ⟨hOutcomes ▸ hKey, hOld⟩⟩

/-! ## Rounds -/

/-- Sorting the records of a round puts the drafts that wait for nothing more in hand. -/
theorem sorted_closing {available : KeySet} {records : List (Parked F)} {sorted : Desk F σ}
    (hClosing : Closing engine all done [] run)
    (hKeys : records.map (·.key) = (run.waiting.waitingOn available).toList)
    (hSorts : Sorts engine available records run.desk sorted)
    (hWaited : ∀ key ∈ (engine.readyBatches available records).flatten.map F.keyOf,
      key ∈ run.waiting.drafts) :
    Closing engine all done (engine.readyBatches available records).flatten
      (roundRun run available sorted) := by
  refine ⟨⟨?_, hSorts.calm⟩, ?_, fun draft hDraft => ?_, fun draft hDraft hPlace => ?_,
    fun key value hGet => ?_, hClosing.waits⟩
  · show sorted.world.remote.Unscripted
    rw [hSorts.remote]
    exact hClosing.calm.remote
  · show sorted.tally.failed = 0
    rw [hSorts.tally]
    exact hClosing.failed
  · rcases hClosing.placed draft hDraft with hMem | hOld | hEffect
    · exact absurd hMem List.not_mem_nil
    · exact Or.inr (Or.inl hOld)
    · exact Or.inr (Or.inr (hEffect.idle hSorts.idle))
  · refine (hClosing.untouched draft hDraft fun hMem => ?_).idle hSorts.idle
    refine Or.inr ((hPlace hMem).elim (fun hReady => ?_) id)
    exact hWaited _ (List.mem_map_of_mem hReady)
  · by_cases hConcerned : key ∈ run.waiting.waitingOn available
    · exact (Waiting.mem_waitingOn.mp hConcerned).1
    · refine hClosing.exact key value ?_
      rw [← hSorts.others key (hKeys ▸ hConcerned)]
      exact hGet

/-- A round of release keeps the place of each draft: what was ready is in effect. -/
theorem releaseRound_closing {available : KeySet} (hHookless : engine.options.Hookless)
    (hDistinct : (all.map F.keyOf).Nodup) (hAll : ∀ draft ∈ done, draft ∈ all)
    (hSome : ¬ (run.waiting.waitingOn available).isEmpty = true)
    (hWakeful : Wakeful engine (· ∈ all) available run)
    (hClosing : Closing engine all done [] run) :
    Closing engine all done []
      (engine.releaseRound run available (run.waiting.waitingOn available)).2 := by
  rcases releaseRound_cases hSome hWakeful.backs with
    ⟨_, _, hFaults, -, -⟩ | ⟨records, sorted, hKeys, hRecords, hSorts, hRound⟩
  · exact absurd hClosing.calm.shelf hFaults
  · have hStages : ∀ record ∈ records, engine.area.Stages run.desk.world.shelf record :=
      fun record hRecord => (hRecords record hRecord).1
    obtain ⟨hNodup, hWaited⟩ := readyBatches_keys hKeys hStages
    have hDone : ∀ draft ∈ (engine.readyBatches available records).flatten, draft ∈ done := by
      intro draft hDraft
      obtain ⟨record, hRecord, -, hSame⟩ := mem_readyBatches.mp hDraft
      have hKnown : draft ∈ all := hSame ▸ (hRecords record hRecord).2.known
      obtain ⟨other, hOther, hKey⟩ := hClosing.waits _ (hWaited _ (List.mem_map_of_mem hDraft))
      rw [eq_of_keyOf hDistinct hKnown (hAll other hOther) hKey.symm]
      exact hOther
    have hSorted : Closing engine all done (engine.readyBatches available records).flatten
        (roundRun run available sorted) := sorted_closing hClosing hKeys hSorts hWaited
    have hServes := Desk.syncBatches_served hHookless hSorted.calm hNodup fun draft hDraft =>
      hSorted.untouched draft (hAll draft (hDone draft hDraft)) fun _ => Or.inl hDraft
    rw [hRound]
    exact settle_closing (roundRun run available sorted) hDistinct hAll hDone hSorted hServes
      Desk.keys_syncBatches (Desk.syncBatches_shelf hHookless.quiet)

/-- A whole release keeps the place of each draft. -/
theorem release_closing {available : KeySet} (hHookless : engine.options.Hookless)
    (hDistinct : (all.map F.keyOf).Nodup) (hAll : ∀ draft ∈ done, draft ∈ all)
    (hWakeful : Wakeful engine (· ∈ all) available run)
    (hClosing : Closing engine all done [] run) :
    Closing engine all done [] (engine.release run available) := by
  refine (release_induct (P := fun available run => Wakeful engine (· ∈ all) available run ∧
    Closing engine all done [] run) ?_ ?_ ⟨hWakeful, hClosing⟩).2
  · rintro available run hSome ⟨hBefore, hPlaces⟩
    exact ⟨(releaseRound_wakeful hHookless.quiet hHookless.keepsKeys hSome hBefore).1,
      releaseRound_closing hHookless hDistinct hAll hSome hBefore hPlaces⟩
  · rintro available run hNone ⟨hBefore, hPlaces⟩
    exact ⟨forget_wakeful hNone hBefore, hPlaces.calm, hPlaces.failed, hPlaces.placed,
      hPlaces.untouched, hPlaces.exact, hPlaces.waits⟩

/-! ## Calls -/

/-- The drafts of a batch that are handed in have their place. -/
theorem syncBatch_closing {batch : List F.Draft} (hHookless : engine.options.Hookless)
    (hResolver : engine.resolver = some World.askRemote) (hDistinct : (all.map F.keyOf).Nodup)
    (hKey : ∀ draft ∈ all, F.hasKey draft = true) (hAll : ∀ draft ∈ done ++ batch, draft ∈ all)
    (hNodup : ((done ++ batch).map F.keyOf).Nodup) (hWakeful : Wakeful engine (· ∈ all) ∅ run)
    (hClosing : Closing engine all done [] run) :
    Closing engine all (done ++ batch) [] (engine.syncBatch run (batch.map some)) := by
  have hBatch : ∀ draft ∈ batch, draft ∈ all := fun draft hDraft =>
    hAll draft (List.mem_append_right _ hDraft)
  rw [List.map_append, List.nodup_append] at hNodup
  have hHand : Closing engine all (done ++ batch) batch run := by
    refine ⟨hClosing.calm, hClosing.failed, fun draft hDraft => ?_, fun draft hDraft hPlace => ?_,
      hClosing.exact, fun key hKey => ?_⟩
    · rcases List.mem_append.mp hDraft with hOld | hNew
      · rcases hClosing.placed draft hOld with hNone | hPlace
        · exact absurd hNone List.not_mem_nil
        · exact Or.inr hPlace
      · exact Or.inl hNew
    · refine hClosing.untouched draft hDraft fun hOld => Or.inr ?_
      refine (hPlace (List.mem_append_left _ hOld)).resolve_left fun hNew => ?_
      exact hNodup.2.2 _ (List.mem_map_of_mem hOld) _ (List.mem_map_of_mem hNew) rfl
    · obtain ⟨draft, hDraft, hSame⟩ := hClosing.waits key hKey
      exact ⟨draft, List.mem_append_left _ hDraft, hSame⟩
  have hReady := ready_closing hDistinct hAll (fun draft hDraft => List.mem_append_right _ hDraft)
    hHand
  have hSub : (engine.ready World.askRemote run batch).1.Sublist batch := ready_sublist
  have hChosen : ∀ draft ∈ (engine.ready World.askRemote run batch).1, draft ∈ done ++ batch :=
    fun draft hDraft => List.mem_append_right _ (hSub.mem hDraft)
  have hServes := Desk.syncBatch_served hHookless hReady.calm ((hSub.map _).nodup hNodup.2.1)
    fun draft hDraft => hReady.untouched draft (hAll draft (hChosen draft hDraft)) fun _ =>
      Or.inl hDraft
  have hSettled := settle_closing (engine.ready World.askRemote run batch).2 hDistinct hAll hChosen
    hReady hServes Desk.keys_syncBatch (Desk.syncBatch_shelf hHookless.quiet)
  have hPending := (batch_wakeful hHookless.quiet hHookless.keepsKeys hBatch hWakeful).1
  have hScreen : Desk.screen engine.options run.desk (batch.map some) = (batch, run.desk) :=
    Desk.screen_of_hasKey fun draft hDraft => hKey draft (hBatch draft hDraft)
  simp only [syncBatch, hScreen, hResolver]
  exact release_closing hHookless hDistinct hAll hPending hSettled

/-- Batches that are handed in one after another give their drafts a place. -/
theorem syncBatches_closing {batches : List (List F.Draft)} (hHookless : engine.options.Hookless)
    (hResolver : engine.resolver = some World.askRemote) (hDistinct : (all.map F.keyOf).Nodup)
    (hKey : ∀ draft ∈ all, F.hasKey draft = true)
    (hAll : ∀ draft ∈ done ++ batches.flatten, draft ∈ all)
    (hNodup : ((done ++ batches.flatten).map F.keyOf).Nodup)
    (hWakeful : Wakeful engine (· ∈ all) ∅ run) (hClosing : Closing engine all done [] run) :
    Wakeful engine (· ∈ all) ∅ ((batches.map (List.map some)).foldl engine.syncBatch run) ∧
      Closing engine all (done ++ batches.flatten) []
        ((batches.map (List.map some)).foldl engine.syncBatch run) := by
  induction batches generalizing run done with
  | nil =>
      rw [List.flatten_nil, List.append_nil]
      exact ⟨hWakeful, hClosing⟩
  | cons batch rest ih =>
      rw [List.flatten_cons, ← List.append_assoc] at hAll hNodup ⊢
      have hFirst : ∀ draft ∈ done ++ batch, draft ∈ all := fun draft hDraft =>
        hAll draft (List.mem_append_left _ hDraft)
      have hFirstNodup : ((done ++ batch).map F.keyOf).Nodup := by
        rw [List.map_append, List.nodup_append] at hNodup
        exact hNodup.1
      have hKnown : ∀ draft, some draft ∈ batch.map some → F.hasKey draft = true → draft ∈ all := by
        intro draft hDraft _
        obtain ⟨other, hOther, hSame⟩ := List.mem_map.mp hDraft
        cases hSame
        exact hFirst draft (List.mem_append_right _ hOther)
      exact ih hAll hNodup
        (syncBatch_wakeful hHookless.quiet hHookless.keepsKeys hResolver hKnown hWakeful).1
        (syncBatch_closing hHookless hResolver hDistinct hKey hFirst hFirstNodup hWakeful hClosing)

/-- A call that hands drafts in gives them a place. -/
theorem sync_closing {drafts : List F.Draft} (hHookless : engine.options.Hookless)
    (hResolver : engine.resolver = some World.askRemote) (hDistinct : (all.map F.keyOf).Nodup)
    (hKey : ∀ draft ∈ all, F.hasKey draft = true) (hAll : ∀ draft ∈ done ++ drafts, draft ∈ all)
    (hNodup : ((done ++ drafts).map F.keyOf).Nodup) (hWakeful : Wakeful engine (· ∈ all) ∅ run)
    (hClosing : Closing engine all done [] run) :
    Wakeful engine (· ∈ all) ∅ (engine.sync run (drafts.map some)) ∧
      Closing engine all (done ++ drafts) [] (engine.sync run (drafts.map some)) := by
  have hWhole : (engine.options.batches drafts).flatten = drafts := Options.flatten_batches
  have hBatches : engine.options.batches (drafts.map some) =
      (engine.options.batches drafts).map (List.map some) := chunks_map
  have hCall := @syncBatches_closing F σ engine run all done (engine.options.batches drafts)
    hHookless hResolver hDistinct hKey (hWhole.symm ▸ hAll) (hWhole.symm ▸ hNodup) hWakeful hClosing
  rw [hWhole] at hCall
  rw [sync, hBatches]
  exact hCall

/-- Drafts handed in with any number of calls, as errands. -/
def handingIn (calls : List (List F.Draft)) : List (Errand F) :=
  calls.map fun drafts => .sync (drafts.map some)

/-- Calls one after another give their drafts a place. -/
theorem follow_closing {calls : List (List F.Draft)} (hHookless : engine.options.Hookless)
    (hResolver : engine.resolver = some World.askRemote) (hDistinct : (all.map F.keyOf).Nodup)
    (hKey : ∀ draft ∈ all, F.hasKey draft = true)
    (hAll : ∀ draft ∈ done ++ calls.flatten, draft ∈ all)
    (hNodup : ((done ++ calls.flatten).map F.keyOf).Nodup)
    (hWakeful : Wakeful engine (· ∈ all) ∅ run) (hClosing : Closing engine all done [] run) :
    Closing engine all (done ++ calls.flatten) [] (engine.follow run (handingIn calls)) := by
  induction calls generalizing run done with
  | nil =>
      rw [List.flatten_nil, List.append_nil]
      exact hClosing
  | cons drafts rest ih =>
      rw [List.flatten_cons, ← List.append_assoc] at hAll hNodup ⊢
      have hFirst : ∀ draft ∈ done ++ drafts, draft ∈ all := fun draft hDraft =>
        hAll draft (List.mem_append_left _ hDraft)
      have hFirstNodup : ((done ++ drafts).map F.keyOf).Nodup := by
        rw [List.map_append, List.nodup_append] at hNodup
        exact hNodup.1
      obtain ⟨hPending, hPlaces⟩ := sync_closing hHookless hResolver hDistinct hKey hFirst hFirstNodup
        hWakeful hClosing
      exact ih hAll hNodup hPending hPlaces

/-! ## The closure -/

/-- What is known before a deferred sync. The drafts have different keys, none of them empty; every
resource is filed under its own key and can be compared with the draft of that key; nothing is
scripted, and nothing is staged. -/
structure Plan (world : World F σ) (drafts : List F.Draft) : Prop where
  key : ∀ draft ∈ drafts, F.hasKey draft = true
  distinct : (drafts.map F.keyOf).Nodup
  filed : ∀ key resource, world.remote.resources.get? key = some resource → F.key resource = key
  comparable : ∀ draft ∈ drafts, ∀ old,
    world.remote.resources.get? (F.keyOf draft) = some old → ∃ actions, F.diff old draft = .ok actions
  unscripted : world.remote.Unscripted
  shelf : world.shelf = {}

theorem start_closing {world : World F σ} {drafts : List F.Draft} (hPlan : Plan world drafts) :
    Closing engine drafts [] [] (Run.start world) where
  calm := ⟨hPlan.unscripted, by
    show world.shelf.faults = []
    rw [hPlan.shelf]⟩
  failed := rfl
  placed draft hDraft := absurd hDraft List.not_mem_nil
  untouched draft hDraft _ := ⟨hPlan.key draft hDraft, fun old hOld =>
    ⟨hPlan.filed _ old hOld, hPlan.comparable draft hDraft old hOld⟩⟩
  exact key value hGet := by
    have hNone : world.shelf.get? engine.area.container key = none := by
      rw [hPlan.shelf]
      rfl
    have hSome : world.shelf.get? engine.area.container key = some value := hGet
    rw [hNone] at hSome
    cases hSome
  waits key hKey := absurd hKey KeySet.not_mem_empty

/-- What holds when the drafts of a list have been handed in: each of them waits or is in effect, only
fit ones were processed, and none waits for what is there. -/
structure Settled (engine : Engine F σ) (world : World F σ) (drafts : List F.Draft)
    (run : Run F σ) : Prop where
  distinct : (drafts.map F.keyOf).Nodup
  hookless : engine.options.Hookless
  placed : ∀ draft ∈ drafts, F.keyOf draft ∈ run.waiting.drafts ∨ Desk.InEffect draft run.desk
  wakeful : Wakeful engine (· ∈ drafts) ∅ run
  works : Desk.Works engine.options (· ∈ drafts) (Run.start world).desk run.desk
  exact : ∀ key value, run.desk.world.shelf.get? F.stagingContainer key = some value →
    key ∈ run.waiting.drafts
  failed : run.desk.tally.failed = 0

/-- Calls that hand in the drafts of a plan settle them. -/
theorem follow_settled {world : World F σ} {drafts : List F.Draft}
    (hHookless : engine.options.Hookless) (hResolver : engine.resolver = some World.askRemote)
    (hPlan : Plan world drafts) {calls : List (List F.Draft)} (hCalls : calls.flatten.Perm drafts) :
    Settled engine world drafts (engine.follow (Run.start world) (handingIn calls)) := by
  have hMem : ∀ draft, draft ∈ calls.flatten ↔ draft ∈ drafts := fun draft => hCalls.mem_iff
  have hKnown : ∀ draft, some draft ∈ (handingIn calls).flatMap Errand.drafts →
      F.hasKey draft = true → draft ∈ drafts := by
    intro draft hDraft _
    obtain ⟨errand, hErrand, hIn⟩ := List.mem_flatMap.mp hDraft
    obtain ⟨call, hCall, rfl⟩ := List.mem_map.mp hErrand
    obtain ⟨other, hOther, hSame⟩ := List.mem_map.mp hIn
    cases hSame
    exact (hMem draft).mp (List.mem_flatten_of_mem hCall hOther)
  obtain ⟨hWakeful, hWorks⟩ := follow_wakeful hHookless.quiet hHookless.keepsKeys hResolver hKnown
    (start_wakeful engine world)
  have hNodup : (([] ++ calls.flatten).map F.keyOf).Nodup :=
    (hCalls.map F.keyOf).nodup_iff.mpr hPlan.distinct
  have hClosing := follow_closing hHookless hResolver hPlan.distinct hPlan.key
    (fun draft hDraft => (hMem draft).mp hDraft) hNodup (start_wakeful engine world)
    (start_closing hPlan)
  refine ⟨hPlan.distinct, hHookless, fun draft hDraft => ?_, hWakeful, hWorks, hClosing.exact,
    hClosing.failed⟩
  have hPlaced := hClosing.placed draft ((hMem draft).mpr hDraft)
  exact hPlaced.resolve_left List.not_mem_nil

namespace Settled

variable {world : World F σ} {drafts : List F.Draft} {draft : F.Draft} {key : String}

/-- A key exists exactly if it belongs to the closure: a draft in the closure whose references exist
does not wait, since what its record misses does not exist. -/
theorem mem_keys_iff (hSettled : Settled engine world drafts run) :
    key ∈ run.desk.world.remote.resources.keys ↔ Closure world.remote.resources drafts key := by
  have hQuiet := hSettled.hookless.quiet
  have hKeeps := hSettled.hookless.keepsKeys
  constructor
  · exact hSettled.works.closure hQuiet hKeeps
  · intro hClosure
    induction hClosure with
    | stored hStored => exact hSettled.works.keys hQuiet hKeeps hStored
    | @draft draft hDraft _ ih =>
        rcases hSettled.placed draft hDraft with hWaits | hEffect
        · -- Its record misses a reference, which by induction exists.
          obtain ⟨record, hKey, hStages, hWaking⟩ := hSettled.wakeful.backs _ hWaits
          have hSame : record.draft = draft :=
            eq_of_keyOf hSettled.distinct hWaking.known hDraft (hStages.key.trans hKey)
          obtain ⟨reference, hMissing⟩ := KeySet.exists_mem_of_not_isEmpty hStages.waits
          have hReference := hSame ▸ hStages.refers reference hMissing
          exact absurd (hWaking.absent reference hMissing (ih reference hReference))
            KeySet.not_mem_empty
        · exact hEffect.stored

/-- A waiting draft has a reference outside of the closure, and its record holds all of these. -/
theorem record_of_waiting (hSettled : Settled engine world drafts run)
    (hWaits : key ∈ run.waiting.drafts) :
    ∃ draft ∈ drafts, F.keyOf draft = key ∧
      (∃ reference ∈ F.references draft, ¬ Closure world.remote.resources drafts reference) ∧
      ∃ missing : KeySet, (∀ reference, reference ∈ missing ↔
          reference ∈ F.references draft ∧ ¬ Closure world.remote.resources drafts reference) ∧
        run.desk.world.shelf.get? F.stagingContainer key =
          some (Parked.codec.encode ⟨key, draft, missing⟩) := by
  obtain ⟨record, rfl, hStages, hWaking⟩ := hSettled.wakeful.backs key hWaits
  have hMissing : ∀ reference, reference ∈ record.missing ↔ reference ∈ F.references record.draft ∧
      ¬ Closure world.remote.resources drafts reference := by
    intro reference
    rw [← hSettled.mem_keys_iff]
    constructor
    · intro hIn
      exact ⟨hStages.refers reference hIn, fun hStored =>
        KeySet.not_mem_empty (hWaking.absent reference hIn hStored)⟩
    · intro hOutside
      exact (hWaking.covered reference hOutside.1).resolve_right hOutside.2
  obtain ⟨reference, hIn⟩ := KeySet.exists_mem_of_not_isEmpty hStages.waits
  exact ⟨record.draft, hWaking.known, hStages.key, ⟨reference, (hMissing reference).mp hIn⟩,
    record.missing, hMissing, hStages.stored⟩

/-- A draft with a reference outside of the closure waits, since it was never fit. -/
theorem waiting_of_outside (hSettled : Settled engine world drafts run) (hDraft : draft ∈ drafts)
    (hOutside : ∃ reference ∈ F.references draft,
      ¬ Closure world.remote.resources drafts reference) : F.keyOf draft ∈ run.waiting.drafts := by
  obtain ⟨reference, hReference, hAbsent⟩ := hOutside
  refine (hSettled.placed draft hDraft).resolve_right fun hEffect => ?_
  obtain ⟨phase, remote, hEnded, -⟩ := hEffect.ended
  have hFitOr := hSettled.works.fit_of_ended hSettled.hookless.quiet hSettled.hookless.keepsKeys hEnded
  rcases hFitOr with hStart | hFit
  · exact absurd hStart List.not_mem_nil
  · exact hAbsent (hSettled.mem_keys_iff.mp (hFit.stored reference hReference))

/-- The drafts that wait are those with a reference outside of the closure. -/
theorem mem_waiting_iff (hSettled : Settled engine world drafts run) :
    key ∈ run.waiting.drafts ↔ ∃ draft ∈ drafts, F.keyOf draft = key ∧
      ∃ reference ∈ F.references draft, ¬ Closure world.remote.resources drafts reference := by
  constructor
  · intro hWaits
    obtain ⟨draft, hDraft, hKey, hOutside, -⟩ := hSettled.record_of_waiting hWaits
    exact ⟨draft, hDraft, hKey, hOutside⟩
  · rintro ⟨draft, hDraft, rfl, hOutside⟩
    exact hSettled.waiting_of_outside hDraft hOutside

/-- The records are those of the drafts with a reference outside of the closure. -/
theorem get?_iff (hSettled : Settled engine world drafts run) {value : Json} :
    run.desk.world.shelf.get? F.stagingContainer key = some value ↔
      ∃ draft ∈ drafts, F.keyOf draft = key ∧
        (∃ reference ∈ F.references draft, ¬ Closure world.remote.resources drafts reference) ∧
        ∃ missing : KeySet, (∀ reference, reference ∈ missing ↔
            reference ∈ F.references draft ∧ ¬ Closure world.remote.resources drafts reference) ∧
          value = Parked.codec.encode ⟨key, draft, missing⟩ := by
  constructor
  · intro hGet
    obtain ⟨draft, hDraft, hKey, hOutside, missing, hMissing, hStored⟩ :=
      hSettled.record_of_waiting (hSettled.exact key value hGet)
    have hValue := Option.some.inj (hGet.symm.trans hStored)
    exact ⟨draft, hDraft, hKey, hOutside, missing, hMissing, hValue⟩
  · rintro ⟨draft, hDraft, rfl, hOutside, missing, hMissing, rfl⟩
    obtain ⟨other, hOther, hKey, -, stored, hStored, hGet⟩ :=
      hSettled.record_of_waiting (hSettled.waiting_of_outside hDraft hOutside)
    have hSame : other = draft := eq_of_keyOf hSettled.distinct hOther hDraft hKey
    subst hSame
    have hSets : stored = missing := KeySet.ext fun reference => by
      rw [hStored, hMissing]
    rw [hGet, hSets]

/-- A draft whose references belong to the closure ended in success. -/
theorem ended_of_inside (hSettled : Settled engine world drafts run) (hDraft : draft ∈ drafts)
    (hInside : ∀ reference ∈ F.references draft, Closure world.remote.resources drafts reference) :
    ∃ phase remote, Event.ended draft phase remote ∈ run.desk.journal ∧
      phase.isSuccess = true := by
  rcases hSettled.placed draft hDraft with hWaits | hEffect
  · obtain ⟨other, hOther, hKey, reference, hReference, hOutside⟩ :=
      hSettled.mem_waiting_iff.mp hWaits
    have hSame : other = draft := eq_of_keyOf hSettled.distinct hOther hDraft hKey
    exact absurd (hInside reference (hSame ▸ hReference)) hOutside
  · exact hEffect.ended

end Settled

/--
A deferred sync computes a closure, whatever the order of the drafts, the size of the batches and
the calls that hand them in. The keys on the remote are those of the closure. The drafts with a
reference outside of it wait, and the records of the staging container are theirs, each with these
references. All other drafts ended in success, and none has failed.
-/
theorem sync_closure {world : World F σ} {drafts : List F.Draft}
    (hHookless : engine.options.Hookless) (hResolver : engine.resolver = some World.askRemote)
    (hPlan : Plan world drafts) {calls : List (List F.Draft)} (hCalls : calls.flatten.Perm drafts) :
    let run := engine.follow (Run.start world) (handingIn calls)
    let Closed := Closure world.remote.resources drafts
    (∀ key, key ∈ run.desk.world.remote.resources.keys ↔ Closed key) ∧
      (∀ key, key ∈ run.waiting.drafts ↔ ∃ draft ∈ drafts, F.keyOf draft = key ∧
        ∃ reference ∈ F.references draft, ¬ Closed reference) ∧
      (∀ key value, run.desk.world.shelf.get? F.stagingContainer key = some value ↔
        ∃ draft ∈ drafts, F.keyOf draft = key ∧
          (∃ reference ∈ F.references draft, ¬ Closed reference) ∧
          ∃ missing : KeySet, (∀ reference, reference ∈ missing ↔
              reference ∈ F.references draft ∧ ¬ Closed reference) ∧
            value = Parked.codec.encode ⟨key, draft, missing⟩) ∧
      (∀ draft ∈ drafts, (∀ reference ∈ F.references draft, Closed reference) →
        ∃ phase remote, Event.ended draft phase remote ∈ run.desk.journal ∧
          phase.isSuccess = true) ∧
      run.desk.tally.failed = 0 := by
  intro run Closed
  have hSettled : Settled engine world drafts run := follow_settled hHookless hResolver hPlan hCalls
  refine ⟨fun key => hSettled.mem_keys_iff, fun key => hSettled.mem_waiting_iff,
    fun key value => hSettled.get?_iff, fun draft hDraft hInside => ?_, hSettled.failed⟩
  exact hSettled.ended_of_inside hDraft hInside

theorem sync_closure_categories :
    let names : LocalizedText := ⟨KeyMap.empty⟩
    let under (key parent : String) := (Category.Draft.basic key names names).withParent parent
    let root := Category.ofDraft (.basic "root" names names) "first"
    let world : World Family.category Unit :=
      { remote := Remote.insert { ids := toString } root, notes := () }
    let calls := [[under "leaf" "branch", under "loop" "loop"], [under "branch" "root"]]
    let run := deferring.follow (Run.start world) (handingIn calls)
    "leaf" ∈ run.desk.world.remote.resources.keys ∧ "loop" ∈ run.waiting.drafts ∧
      (∀ key, key ∈ run.desk.world.remote.resources.keys ↔
        Closure world.remote.resources calls.flatten key) ∧
      run.desk.tally.failed = 0 := by
  intro names under root world calls run
  have hPlan : Plan world calls.flatten := by
    refine ⟨by decide +kernel, by decide +kernel, fun key resource hGet => ?_,
      fun draft _ old _ => ⟨_, rfl⟩, ⟨rfl, rfl, rfl, rfl⟩, rfl⟩
    have hStored : (KeyMap.empty.insert "root" root).get? key = some resource := hGet
    rw [KeyMap.get?_insert] at hStored
    split at hStored
    · rename_i hKey
      cases hStored
      exact hKey.symm
    · cases hStored
  obtain ⟨hKeys, -, -, -, hFailed⟩ :=
    @sync_closure Family.category Unit deferring world calls.flatten ⟨rfl, rfl⟩ rfl hPlan calls
      (.refl calls.flatten)
  exact ⟨by decide +kernel, by decide +kernel, hKeys, hFailed⟩

end Engine

end CatalogSync
