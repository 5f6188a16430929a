import CatalogSync.Catalog.Families
import CatalogSync.Proofs.Rounds
import CatalogSync.Sync.Course

/-!
# No draft waits for what is there

The invariant of an engine that asks the remote itself. The record of every waiting draft misses
exactly those of its references that do not exist, apart from keys that are pending: keys that were
created and that the waiting drafts have not been told of yet. And the index names the draft under
each key that its record misses, so that it is told when the key is created.

A whole release leaves no key pending. Together with it goes the other side of the coin: whatever is
processed on the way is fit, so no draft reaches the remote before what it refers to.

## Main results

* `Engine.releaseRound_wakeful`: a round tells the drafts of the pending keys.
* `Engine.release_wakeful`: a whole release leaves no key pending.
* `Engine.follow_wakeful`: between calls no key is pending, and only fit drafts are processed.
* `Engine.waiting_misses`: no draft waits for what is there.
-/

namespace CatalogSync.Engine

variable {F : Family} {σ : Type} {engine : Engine F σ} {known : F.Draft → Prop}
  {pending available : KeySet} {run : Run F σ} {record : Parked F}

/-! ## The invariant -/

/-- A record whose draft is told in time. The index names the draft under everything that the record
misses; of this nothing exists unless it is pending; and the other references of the draft exist. -/
structure Waking (known : F.Draft → Prop) (pending : KeySet) (run : Run F σ)
    (record : Parked F) : Prop where
  known : known record.draft
  indexed : ∀ reference ∈ record.missing, run.waiting.Awaits reference record.key
  absent : ∀ reference ∈ record.missing, reference ∈ run.desk.world.remote.resources.keys →
    reference ∈ pending
  covered : ∀ reference ∈ F.references record.draft,
    reference ∈ record.missing ∨ reference ∈ run.desk.world.remote.resources.keys

/-- Every waiting draft is told in time, and what is pending exists. -/
structure Wakeful (engine : Engine F σ) (known : F.Draft → Prop) (pending : KeySet)
    (run : Run F σ) : Prop where
  backs : engine.area.Backs run.desk.world.shelf (Waking known pending run) run.waiting.drafts
  arrived : ∀ key ∈ pending, key ∈ run.desk.world.remote.resources.keys

/-- A record stays as it is while its entries are kept and only pending keys are added. -/
theorem Waking.step {before after : Run F σ} {later : KeySet}
    (hWaking : Waking known pending before record)
    (hIndexed : ∀ reference ∈ record.missing, before.waiting.Awaits reference record.key →
      after.waiting.Awaits reference record.key)
    (hKeys : ∀ key ∈ before.desk.world.remote.resources.keys,
      key ∈ after.desk.world.remote.resources.keys)
    (hNew : ∀ reference ∈ record.missing, reference ∈ after.desk.world.remote.resources.keys →
      reference ∈ later) : Waking known later after record where
  known := hWaking.known
  indexed reference hMissing := hIndexed reference hMissing (hWaking.indexed reference hMissing)
  absent := hNew
  covered reference hReference :=
    (hWaking.covered reference hReference).imp_right (hKeys reference)

/-- A desk that only turned idle steps keeps the invariant, if its records are the same. -/
theorem Wakeful.withDesk {desk : Desk F σ} (hWakeful : Wakeful engine known pending run)
    (hIdle : Desk.Idle run.desk desk) (hRecords : ∀ key,
      desk.world.shelf.get? engine.area.container key =
        run.desk.world.shelf.get? engine.area.container key) :
    Wakeful engine known pending (run.withDesk desk) := by
  have hSame : (run.withDesk desk).desk.world.remote.resources = run.desk.world.remote.resources :=
    hIdle.resources
  constructor
  · refine hWakeful.backs.mono (fun _ hKey => hKey) (fun key _ => hRecords key)
      fun record _ hWaking => hWaking.step (fun _ _ hAwaits => hAwaits) ?_ ?_
    · rw [hSame]
      exact fun _ hKey => hKey
    · rw [hSame]
      exact hWaking.absent
  · rw [hSame]
    exact hWakeful.arrived

/-! ## Parking -/

/-- Parking takes no entry out of the index. -/
theorem awaits_park {draft : F.Draft} {missing : KeySet} {reference other : String}
    (hAwaits : run.waiting.Awaits reference other) :
    (engine.park run draft missing).waiting.Awaits reference other := by
  cases hFaults : run.desk.world.shelf.faults with
  | nil =>
      rw [(park_of_calm hFaults).1, Waiting.awaits_park]
      exact Or.inr hAwaits
  | cons fault faults =>
      rw [(park_of_fault hFaults).1]
      exact hAwaits

/-- Parking a draft for the references that do not exist keeps the invariant. -/
theorem park_wakeful {draft : F.Draft} {missing : KeySet}
    (hWakeful : Wakeful engine known pending run) (hKnown : known draft)
    (hWaits : ¬ missing.isEmpty = true)
    (hMissing : ∀ reference, reference ∈ missing ↔ reference ∈ F.references draft ∧
      ¬ reference ∈ run.desk.world.remote.resources.keys) :
    Wakeful engine known pending (engine.park run draft missing) := by
  have hSame : (engine.park run draft missing).desk.world.remote.resources =
      run.desk.world.remote.resources := (park_idle engine run draft missing).resources
  constructor
  · refine park_backs hWakeful.backs hWaits (fun reference hMem => ((hMissing reference).mp hMem).1)
      (fun record _ hWaking => ?_) fun hCalm => ?_
    · refine hWaking.step (fun _ _ => awaits_park) ?_ ?_
      · rw [hSame]
        exact fun _ hKey => hKey
      · rw [hSame]
        exact hWaking.absent
    · refine ⟨hKnown, fun reference hMem => ?_, fun reference hMem hStored => ?_,
        fun reference hReference => ?_⟩
      · rw [(park_of_calm hCalm).1, Waiting.awaits_park]
        exact Or.inl ⟨hMem, rfl⟩
      · rw [hSame] at hStored
        exact absurd hStored ((hMissing reference).mp hMem).2
      · rw [hSame]
        by_cases hStored : reference ∈ run.desk.world.remote.resources.keys
        · exact Or.inr hStored
        · exact Or.inl ((hMissing reference).mpr ⟨hReference, hStored⟩)
  · rw [hSame]
    exact hWakeful.arrived

/-- Parking the incomplete drafts of a batch keeps the invariant and leaves drafts that are fit. -/
theorem parkIncomplete_wakeful {existing : KeySet} {drafts : List F.Draft}
    (hWakeful : Wakeful engine known pending run) (hKnown : ∀ draft ∈ drafts, known draft)
    (hExisting : ∀ draft ∈ drafts, ∀ reference ∈ F.references draft,
      (reference ∈ existing ↔ reference ∈ run.desk.world.remote.resources.keys)) :
    Wakeful engine known pending (engine.parkIncomplete existing run drafts).2 ∧
      ∀ draft ∈ (engine.parkIncomplete existing run drafts).1,
        Desk.Fit known draft (engine.parkIncomplete existing run drafts).2.desk := by
  induction drafts generalizing run with
  | nil => exact ⟨hWakeful, by simp [parkIncomplete]⟩
  | cons draft rest ih =>
      have hRest : ∀ other ∈ rest, known other := fun other hMem =>
        hKnown other (List.mem_cons_of_mem _ hMem)
      have hDraft := hExisting draft (List.mem_cons_self ..)
      simp only [parkIncomplete]
      split
      · rename_i hNone
        obtain ⟨hAfter, hFit⟩ := ih hWakeful hRest fun other hMem =>
          hExisting other (List.mem_cons_of_mem _ hMem)
        refine ⟨hAfter, fun other hOther => ?_⟩
        rcases List.mem_cons.mp hOther with rfl | hOther
        · refine ⟨hKnown other (List.mem_cons_self ..), fun reference hReference => ?_⟩
          rw [parkIncomplete_idle.resources, ← hDraft reference hReference]
          have hEmpty := KeySet.isEmpty_iff.mp hNone reference
          rw [KeySet.mem_diff] at hEmpty
          exact Classical.not_not.mp fun hAbsent => hEmpty ⟨hReference, hAbsent⟩
        · exact hFit other hOther
      · rename_i hSome
        have hMissing : ∀ reference, reference ∈ (F.references draft).diff existing ↔
            reference ∈ F.references draft ∧
              ¬ reference ∈ run.desk.world.remote.resources.keys := by
          intro reference
          rw [KeySet.mem_diff]
          exact and_congr_right fun hReference => not_congr (hDraft reference hReference)
        have hParked := park_wakeful hWakeful (hKnown draft (List.mem_cons_self ..)) hSome hMissing
        refine ih hParked hRest fun other hMem => ?_
        rw [(park_idle engine run draft _).resources]
        exact hExisting other (List.mem_cons_of_mem _ hMem)

/-- Asking the remote which references exist leaves drafts that are fit and keeps the invariant. -/
theorem ready_wakeful {drafts : List F.Draft} (hWakeful : Wakeful engine known pending run)
    (hKnown : ∀ draft ∈ drafts, known draft) :
    Wakeful engine known pending (engine.ready World.askRemote run drafts).2 ∧
      Desk.Idle run.desk (engine.ready World.askRemote run drafts).2.desk ∧
      ∀ draft ∈ (engine.ready World.askRemote run drafts).1,
        Desk.Fit known draft (engine.ready World.askRemote run drafts).2.desk := by
  by_cases hNone : (F.referencesOf drafts).isEmpty = true
  · rw [ready_of_no_references hNone]
    refine ⟨hWakeful, .refl, fun draft hMem => ⟨hKnown draft hMem, fun reference hReference => ?_⟩⟩
    have hReferenced := Family.mem_referencesOf.mpr ⟨draft, hMem, hReference⟩
    exact absurd hReferenced (KeySet.isEmpty_iff.mp hNone reference)
  · have hAsked : Desk.Idle run.desk ((run.desk.enter (.resolving (F.referencesOf drafts))).withWorld
        (World.askRemote run.desk.world (F.referencesOf drafts)).2) :=
      ⟨rfl, .single rfl, .single rfl⟩
    have hExisting : ∀ draft ∈ drafts, ∀ reference ∈ F.references draft,
        (reference ∈ run.desk.world.remote.existing (F.referencesOf drafts) ↔
          reference ∈ run.desk.world.remote.resources.keys) := by
      intro draft hMem reference hReference
      rw [Remote.mem_existing]
      exact and_iff_right (Family.mem_referencesOf.mpr ⟨draft, hMem, hReference⟩)
    obtain ⟨hAfter, hFit⟩ := @parkIncomplete_wakeful F σ engine known pending _ _ drafts
      (hWakeful.withDesk hAsked fun _ => rfl) hKnown hExisting
    simp only [ready, if_neg hNone]
    refine ⟨hAfter, hAsked.trans ?_, hFit⟩
    exact @parkIncomplete_idle F σ engine (run.withDesk _) _ drafts

/-! ## Settling and rounds -/

/-- Settling makes the created keys pending, if nothing was pending for the drafts that still
wait. -/
theorem settle_wakeful (run : Run F σ) (desk : Desk F σ) (outcomes : List (String × Phase))
    (hBacks : engine.area.Backs run.desk.world.shelf (Waking known ∅ run)
      (engine.settle (run.withDesk desk) outcomes).waiting.drafts)
    (hShelf : desk.world.shelf = run.desk.world.shelf)
    (hKeys : ∀ key, key ∈ desk.world.remote.resources.keys ↔
      key ∈ run.desk.world.remote.resources.keys ∨ (key, Phase.created) ∈ outcomes) :
    Wakeful engine known (createdKeys outcomes) (engine.settle (run.withDesk desk) outcomes) := by
  have hSame : (engine.settle (run.withDesk desk) outcomes).desk.world.remote.resources =
      desk.world.remote.resources := (settle_idle engine (run.withDesk desk) outcomes).resources
  constructor
  · refine hBacks.mono (fun _ hKey => hKey) (fun key hKey => ?_) fun record _ hWaking => ?_
    · rw [settle_get?_ne fun hBoth => (mem_settle_drafts.mp hKey).2 hBoth.1, ← hShelf]
      rfl
    · refine hWaking.step (fun reference _ hAwaits => ?_) ?_ ?_
      · unfold Waiting.Awaits
        rw [settle_byMissing]
        exact hAwaits
      · intro key hKey
        rw [hSame, hKeys]
        exact Or.inl hKey
      · intro reference hMissing hStored
        rw [hSame, hKeys] at hStored
        rw [mem_createdKeys]
        refine hStored.resolve_left fun hOld => ?_
        exact KeySet.not_mem_empty (hWaking.absent reference hMissing hOld)
  · intro key hKey
    rw [hSame, hKeys]
    exact Or.inr (mem_createdKeys.mp hKey)

/-- A waiting draft that pending keys do not concern misses none of them. -/
theorem Waking.not_concerned (hWaking : Waking known available run record)
    (hWaits : record.key ∈ run.waiting.drafts)
    (hOther : ¬ record.key ∈ run.waiting.waitingOn available) {reference : String}
    (hMissing : reference ∈ record.missing) : ¬ reference ∈ available := fun hPending =>
  hOther (Waiting.mem_waitingOn.mpr
    ⟨hWaits, reference, hPending, hWaking.indexed reference hMissing⟩)

/-- Once the entries of the pending keys are used up, nothing is pending for the drafts that they do
not concern. -/
theorem Waking.forget {desk : Desk F σ} (hWaking : Waking known available run record)
    (hApart : ∀ reference ∈ record.missing, ¬ reference ∈ available)
    (hSame : desk.world.remote.resources = run.desk.world.remote.resources) :
    Waking known ∅ (roundRun run available desk) record := by
  have hKeys : (roundRun run available desk).desk.world.remote.resources =
      run.desk.world.remote.resources := hSame
  refine hWaking.step (fun reference hMissing hAwaits => ?_) ?_ fun reference hMissing hStored => ?_
  · exact Waiting.awaits_forget.mpr ⟨hApart reference hMissing, hAwaits⟩
  · rw [hKeys]
    exact fun _ hKey => hKey
  · rw [hKeys] at hStored
    exact absurd (hWaking.absent reference hMissing hStored) (hApart reference hMissing)

/-- A record that still misses something after the pending keys have come is told of the rest in
time. -/
theorem Waking.without {desk : Desk F σ} (hWaking : Waking known available run record)
    (hArrived : ∀ key ∈ available, key ∈ run.desk.world.remote.resources.keys)
    (hSame : desk.world.remote.resources = run.desk.world.remote.resources) :
    Waking known ∅ (roundRun run available desk) (record.without available) := by
  have hKeys : (roundRun run available desk).desk.world.remote.resources =
      run.desk.world.remote.resources := hSame
  have hMissing : ∀ reference, reference ∈ (record.without available).missing ↔
      reference ∈ record.missing ∧ ¬ reference ∈ available := fun _ => KeySet.mem_diff
  refine ⟨hWaking.known, fun reference hMem => ?_, fun reference hMem hStored => ?_,
    fun reference hReference => ?_⟩
  · have hOld := (hMissing reference).mp hMem
    exact Waiting.awaits_forget.mpr ⟨hOld.2, hWaking.indexed reference hOld.1⟩
  · have hOld := (hMissing reference).mp hMem
    rw [hKeys] at hStored
    exact absurd (hWaking.absent reference hOld.1 hStored) hOld.2
  · rw [hKeys, hMissing]
    rcases hWaking.covered reference hReference with hMem | hStored
    · by_cases hPending : reference ∈ available
      · exact Or.inr (hArrived reference hPending)
      · exact Or.inl ⟨hMem, hPending⟩
    · exact Or.inr hStored

/-- The draft of a record that misses nothing any more is fit. -/
theorem Waking.fit {desk : Desk F σ} (hWaking : Waking known available run record)
    (hArrived : ∀ key ∈ available, key ∈ run.desk.world.remote.resources.keys)
    (hSame : desk.world.remote.resources = run.desk.world.remote.resources)
    (hReady : record.isReady available = true) : Desk.Fit known record.draft desk := by
  refine ⟨hWaking.known, fun reference hReference => ?_⟩
  rw [hSame]
  rcases hWaking.covered reference hReference with hMem | hStored
  · refine hArrived reference (Classical.not_not.mp fun hAbsent => ?_)
    exact KeySet.isEmpty_iff.mp hReady reference (KeySet.mem_diff.mpr ⟨hMem, hAbsent⟩)
  · exact hStored

/-- Drafts that are given up leave the others with nothing pending. -/
theorem abandon_wakeful {shelf : Shelf} {cause : Cause}
    (hWakeful : Wakeful engine known available run)
    (hSame : ∀ key, shelf.get? engine.area.container key =
      run.desk.world.shelf.get? engine.area.container key) :
    Wakeful engine known ∅ (engine.abandon (roundRun run available (run.desk.withShelf shelf))
      (run.waiting.waitingOn available) cause) := by
  constructor
  · intro key hKey
    obtain ⟨hWaits, hOther⟩ := mem_abandon_drafts.mp hKey
    obtain ⟨record, rfl, hStages, hWaking⟩ := hWakeful.backs key hWaits
    have hApart : ∀ reference ∈ record.missing, ¬ reference ∈ available := fun _ hMissing =>
      hWaking.not_concerned hWaits hOther hMissing
    have hForgot : Waking known ∅ (roundRun run available (run.desk.withShelf shelf)) record :=
      hWaking.forget hApart rfl
    refine ⟨record, rfl, hStages.congr ?_, hForgot.step (fun _ _ hAwaits => hAwaits) ?_ ?_⟩
    · rw [abandon_world]
      exact hSame record.key
    · rw [abandon_world]
      exact fun _ hStored => hStored
    · rw [abandon_world]
      exact hForgot.absent
  · exact fun key hKey => absurd hKey KeySet.not_mem_empty

/-- A round tells the drafts of the pending keys; what it creates is pending after it. -/
theorem releaseRound_wakeful (hQuiet : engine.options.Quiet) (hKeeps : engine.options.KeepsKeys)
    (hSome : ¬ (run.waiting.waitingOn available).isEmpty = true)
    (hWakeful : Wakeful engine known available run) :
    Wakeful engine known
        (engine.releaseRound run available (run.waiting.waitingOn available)).1
        (engine.releaseRound run available (run.waiting.waitingOn available)).2 ∧
      Desk.Works engine.options known run.desk
        (engine.releaseRound run available (run.waiting.waitingOn available)).2.desk := by
  rcases releaseRound_cases hSome hWakeful.backs with
    ⟨shelf, cause, -, hSame, hRound⟩ | ⟨records, sorted, hKeys, hRecords, hSorts, hRound⟩
  · rw [hRound]
    have hFetched : Desk.Idle run.desk (roundRun run available (run.desk.withShelf shelf)).desk :=
      .of_remote rfl .refl
    exact ⟨abandon_wakeful hWakeful hSame,
      .single (.idle (hFetched.trans (abandon_idle engine _ _ cause)))⟩
  · rw [hRound]
    constructor
    · have hKeysAfter : ∀ key, key ∈ (Desk.syncBatches engine.options sorted
          (engine.readyBatches available records)).2.world.remote.resources.keys ↔
            key ∈ sorted.world.remote.resources.keys ∨ (key, Phase.created) ∈
              (Desk.syncBatches engine.options sorted (engine.readyBatches available records)).1 :=
        fun key => Desk.syncBatches_keys hQuiet hKeeps
      have hForgot : ∀ record, record.key ∈ run.waiting.drafts →
          ¬ record.key ∈ run.waiting.waitingOn available → Waking known available run record →
            Waking known ∅ (roundRun run available sorted) record := by
        intro record hWaits hOther hWaking
        exact hWaking.forget (fun _ => hWaking.not_concerned hWaits hOther) hSorts.idle.resources
      exact settle_wakeful (roundRun run available sorted) _ _
        (round_backs _ hWakeful.backs hKeys hRecords hSorts
          (fun _ hWaking => hWaking.without hWakeful.arrived hSorts.idle.resources) hForgot)
        (Desk.syncBatches_shelf hQuiet) hKeysAfter
    · have hSynced : Desk.Works engine.options known sorted
          (Desk.syncBatches engine.options sorted (engine.readyBatches available records)).2 := by
        refine Desk.syncBatches_works hQuiet hKeeps fun draft hDraft => ?_
        obtain ⟨record, hRecord, hReady, rfl⟩ := mem_readyBatches.mp hDraft
        exact (hRecords record hRecord).2.fit hWakeful.arrived hSorts.idle.resources hReady
      have hSettled := settle_idle engine
        (roundRun run available
          (Desk.syncBatches engine.options sorted (engine.readyBatches available records)).2)
        (Desk.syncBatches engine.options sorted (engine.readyBatches available records)).1
      exact ((Relation.ReflTransGen.single (.idle hSorts.idle)).trans hSynced).tail
        (.idle hSettled)

/-- Pending keys that concern no waiting draft are pending no more. -/
theorem forget_wakeful (hNone : (run.waiting.waitingOn available).isEmpty = true)
    (hWakeful : Wakeful engine known available run) :
    Wakeful engine known ∅ (run.withWaiting (run.waiting.forget available)) := by
  constructor
  · intro key hWaits
    obtain ⟨record, rfl, hStages, hWaking⟩ := hWakeful.backs key hWaits
    have hApart : ∀ reference ∈ record.missing, ¬ reference ∈ available := fun _ hMissing =>
      hWaking.not_concerned hWaits (KeySet.isEmpty_iff.mp hNone _) hMissing
    have hForgot : Waking known ∅ (roundRun run available run.desk) record :=
      hWaking.forget hApart rfl
    exact ⟨record, rfl, hStages, hForgot⟩
  · exact fun key hKey => absurd hKey KeySet.not_mem_empty

/-- A whole release leaves no key pending, and processes fit drafts only. -/
theorem release_wakeful (hQuiet : engine.options.Quiet) (hKeeps : engine.options.KeepsKeys)
    (hWakeful : Wakeful engine known available run) :
    Wakeful engine known ∅ (engine.release run available) ∧
      Desk.Works engine.options known run.desk (engine.release run available).desk := by
  refine release_induct (P := fun available after => Wakeful engine known available after ∧
    Desk.Works engine.options known run.desk after.desk) ?_ ?_ ⟨hWakeful, .refl⟩
  · rintro available middle hSome ⟨hMiddle, hWorks⟩
    obtain ⟨hAfter, hRound⟩ := releaseRound_wakeful hQuiet hKeeps hSome hMiddle
    exact ⟨hAfter, hWorks.trans hRound⟩
  · rintro available middle hNone ⟨hMiddle, hWorks⟩
    exact ⟨forget_wakeful hNone hMiddle, hWorks⟩

/-! ## Calls -/

/-- Syncing the complete drafts of a batch makes the created keys pending. -/
theorem batch_wakeful {drafts : List F.Draft} (hQuiet : engine.options.Quiet)
    (hKeeps : engine.options.KeepsKeys) (hKnown : ∀ draft ∈ drafts, known draft)
    (hWakeful : Wakeful engine known ∅ run) :
    let chosen := engine.ready World.askRemote run drafts
    let synced := chosen.2.desk.syncBatch engine.options chosen.1
    Wakeful engine known (createdKeys synced.1)
        (engine.settle (chosen.2.withDesk synced.2) synced.1) ∧
      Desk.Works engine.options known run.desk
        (engine.settle (chosen.2.withDesk synced.2) synced.1).desk := by
  intro chosen synced
  obtain ⟨hChosen, hAsked, hFit⟩ := ready_wakeful hWakeful hKnown
  have hKeys : ∀ key, key ∈ synced.2.world.remote.resources.keys ↔
      key ∈ chosen.2.desk.world.remote.resources.keys ∨ (key, Phase.created) ∈ synced.1 :=
    fun key => Desk.syncBatch_keys hQuiet hKeeps
  have hBacks := hChosen.backs.mono
    (fun key hKey => (@mem_settle_drafts F σ engine (chosen.2.withDesk synced.2) synced.1 key).mp
      hKey |>.1)
    (fun _ _ => rfl) fun _ _ hGood => hGood
  have hSynced : Desk.Works engine.options known chosen.2.desk synced.2 :=
    Desk.syncBatch_works hQuiet hKeeps hFit
  have hReady : Desk.Works engine.options known run.desk chosen.2.desk := .single (.idle hAsked)
  exact ⟨settle_wakeful chosen.2 synced.2 synced.1 hBacks (Desk.syncBatch_shelf hQuiet) hKeys,
    (hReady.trans hSynced).tail (.idle (settle_idle engine (chosen.2.withDesk synced.2) synced.1))⟩

/-- A batch leaves no key pending, and processes fit drafts only. -/
theorem syncBatch_wakeful {batch : List (Option F.Draft)} (hQuiet : engine.options.Quiet)
    (hKeeps : engine.options.KeepsKeys) (hResolver : engine.resolver = some World.askRemote)
    (hKnown : ∀ draft, some draft ∈ batch → F.hasKey draft = true → known draft)
    (hWakeful : Wakeful engine known ∅ run) :
    Wakeful engine known ∅ (engine.syncBatch run batch) ∧
      Desk.Works engine.options known run.desk (engine.syncBatch run batch).desk := by
  have hScreened : Desk.Idle run.desk (Desk.screen engine.options run.desk batch).2 :=
    Desk.screen_idle
  have hBegun : Wakeful engine known ∅
      (run.withDesk (Desk.screen engine.options run.desk batch).2) :=
    hWakeful.withDesk hScreened fun _ => by rw [Desk.screen_world]
  obtain ⟨hSettled, hWorks⟩ := batch_wakeful hQuiet hKeeps
    (fun draft hMem => hKnown draft (Desk.valid_of_mem_screen hMem).1
      (Desk.valid_of_mem_screen hMem).2) hBegun
  obtain ⟨hAfter, hReleased⟩ := release_wakeful hQuiet hKeeps hSettled
  have hReady : Desk.Works engine.options known run.desk
      (Desk.screen engine.options run.desk batch).2 := .single (.idle hScreened)
  simp only [syncBatch, hResolver]
  exact ⟨hAfter, (hReady.trans hWorks).trans hReleased⟩

/-- A call leaves no key pending, and processes fit drafts only. -/
theorem sync_wakeful {drafts : List (Option F.Draft)} (hQuiet : engine.options.Quiet)
    (hKeeps : engine.options.KeepsKeys) (hResolver : engine.resolver = some World.askRemote)
    (hKnown : ∀ draft, some draft ∈ drafts → F.hasKey draft = true → known draft)
    (hWakeful : Wakeful engine known ∅ run) :
    Wakeful engine known ∅ (engine.sync run drafts) ∧
      Desk.Works engine.options known run.desk (engine.sync run drafts).desk := by
  have hBatches : ∀ batch ∈ engine.options.batches drafts, ∀ draft, some draft ∈ batch →
      F.hasKey draft = true → known draft := by
    intro batch hBatch draft hMem
    refine hKnown draft ?_
    have hAll : (engine.options.batches drafts).flatten = drafts := Options.flatten_batches
    rw [← hAll]
    exact List.mem_flatten_of_mem hBatch hMem
  unfold sync
  generalize engine.options.batches drafts = batches at hBatches
  induction batches generalizing run with
  | nil => exact ⟨hWakeful, .refl⟩
  | cons batch rest ih =>
      obtain ⟨hFirst, hWorks⟩ := syncBatch_wakeful hQuiet hKeeps hResolver
        (hBatches batch (List.mem_cons_self ..)) hWakeful
      obtain ⟨hRest, hLast⟩ := ih hFirst fun other hMem =>
        hBatches other (List.mem_cons_of_mem _ hMem)
      exact ⟨hRest, hWorks.trans hLast⟩

/-- Scripting keeps the invariant. -/
theorem script_wakeful {errand : Errand F} (hWakeful : Wakeful engine known pending run) :
    Wakeful engine known pending
        (run.withDesk (run.desk.withWorld (run.desk.world.script errand))) ∧
      Desk.Works engine.options known run.desk
        (run.withDesk (run.desk.withWorld (run.desk.world.script errand))).desk := by
  obtain ⟨hResources, hLog, hContainers⟩ := @World.script_keeps F σ run.desk.world errand
  have hIdle : Desk.Idle run.desk (run.desk.withWorld (run.desk.world.script errand)) :=
    ⟨hResources, hLog ▸ .refl, .refl⟩
  have hSame : ∀ key, (run.desk.world.script errand).shelf.get? engine.area.container key =
      run.desk.world.shelf.get? engine.area.container key := by
    intro key
    unfold Shelf.get? Shelf.container
    rw [hContainers]
  exact ⟨hWakeful.withDesk hIdle hSame, .single (.idle hIdle)⟩

/-- Between errands no key is pending, and fit drafts only are processed. -/
theorem follow_wakeful {errands : List (Errand F)} (hQuiet : engine.options.Quiet)
    (hKeeps : engine.options.KeepsKeys) (hResolver : engine.resolver = some World.askRemote)
    (hKnown : ∀ draft, some draft ∈ errands.flatMap Errand.drafts → F.hasKey draft = true →
      known draft)
    (hWakeful : Wakeful engine known ∅ run) :
    Wakeful engine known ∅ (engine.follow run errands) ∧
      Desk.Works engine.options known run.desk (engine.follow run errands).desk := by
  induction errands generalizing run with
  | nil => exact ⟨hWakeful, .refl⟩
  | cons errand rest ih =>
      have hRest : ∀ draft, some draft ∈ rest.flatMap Errand.drafts → F.hasKey draft = true →
          known draft := fun draft hMem =>
        hKnown draft (List.flatMap_cons ▸ List.mem_append_right _ hMem)
      have hFirst : Wakeful engine known ∅ (engine.perform run errand) ∧
          Desk.Works engine.options known run.desk (engine.perform run errand).desk := by
        rcases @perform_cases F σ engine run errand with hSync | ⟨-, hScript⟩
        · rw [hSync]
          exact sync_wakeful hQuiet hKeeps hResolver (fun draft hMem =>
            hKnown draft (List.flatMap_cons ▸ List.mem_append_left _ hMem)) hWakeful
        · rw [hScript]
          exact script_wakeful hWakeful
      obtain ⟨hLater, hWorks⟩ := ih hRest hFirst.1
      exact ⟨hLater, hFirst.2.trans hWorks⟩

/-- A run begins with no draft that waits. -/
theorem start_wakeful (engine : Engine F σ) (world : World F σ) :
    Wakeful engine known ∅ (Run.start world) :=
  ⟨fun _ hKey => absurd hKey KeySet.not_mem_empty, fun _ hKey => absurd hKey KeySet.not_mem_empty⟩

/--
No draft waits for what is there. After any number of calls, whatever went wrong in between, every
waiting draft has a record that misses something, and nothing that the record misses exists.
-/
theorem waiting_misses (hQuiet : engine.options.Quiet) (hKeeps : engine.options.KeepsKeys)
    (hResolver : engine.resolver = some World.askRemote) (world : World F σ)
    (errands : List (Errand F)) :
    ∀ key ∈ (engine.follow (Run.start world) errands).waiting.drafts,
      ∃ (value : Json) (record : Parked F),
      (engine.follow (Run.start world) errands).desk.world.shelf.get? F.stagingContainer key =
          some value ∧
        Parked.codec.decode value = some record ∧ record.key = key ∧
        ¬ record.missing.isEmpty = true ∧
        ∀ reference ∈ record.missing, ¬ reference ∈
          (engine.follow (Run.start world) errands).desk.world.remote.resources.keys := by
  intro key hKey
  obtain ⟨hWakeful, -⟩ := @follow_wakeful F σ engine (fun _ => True) _ errands hQuiet hKeeps hResolver
    (fun _ _ _ => trivial) (start_wakeful engine world)
  obtain ⟨record, rfl, hStages, hWaking⟩ := hWakeful.backs key hKey
  refine ⟨_, record, hStages.stored, hStages.readable, rfl, hStages.waits,
    fun reference hMissing hStored => ?_⟩
  exact KeySet.not_mem_empty (hWaking.absent reference hMissing hStored)

theorem waiting_misses_child :
    let names : LocalizedText := ⟨KeyMap.empty⟩
    let run := (deferring (F := Family.category)).follow (Run.start (.bare toString))
      [ .sync [some ((Category.Draft.basic "child" names names).withParent "parent")]
      , .scriptCreate .empty
      , .sync [some (Category.Draft.basic "parent" names names)] ]
    "child" ∈ run.waiting.drafts ∧ ∃ (value : Json) (record : Parked Family.category),
      run.desk.world.shelf.get? Family.category.stagingContainer "child" = some value ∧
        Parked.codec.decode value = some record ∧ record.key = "child" ∧
        ¬ record.missing.isEmpty = true ∧
        ∀ reference ∈ record.missing, ¬ reference ∈ run.desk.world.remote.resources.keys := by
  intro names run
  have hHookless : (deferring (F := Family.category)).options.Hookless := ⟨rfl, rfl⟩
  have hChild : "child" ∈ run.waiting.drafts := by decide +kernel
  exact ⟨hChild, waiting_misses hHookless.quiet hHookless.keepsKeys rfl _ _ "child" hChild⟩

end CatalogSync.Engine
