import CatalogSync.Proofs.Staging

/-!
# Parking, settling and releasing

The three operations that move drafts into the waiting index and out of it, each told by what it
does to the index, the shelf and the tally. Every claim about waiting drafts is an invariant of
these operations, and is proved from what is said here without opening them again.

The round of a release needs the records of the drafts that it is concerned with. As long as all
waiting drafts are backed, `releaseRound_cases` tells what comes of it: either its fetch meets a
scripted fault and the drafts are given up, or all of their records are sorted out.

## Main results

* `park_backs`, `settle_backs`: parking and settling keep the waiting drafts backed.
* `releaseRound_cases`: the two ways in which a round ends.
* `release_induct`: what every round keeps is kept until nothing is pending.
-/

namespace CatalogSync.Engine

variable {F : Family} {σ : Type} {engine : Engine F σ} {run : Run F σ} {available : KeySet}

/-! ## Parking -/

variable {draft : F.Draft} {missing : KeySet}

/-- Without a scripted fault, a parked draft waits and its record is saved. -/
theorem park_of_calm (hCalm : run.desk.world.shelf.faults = []) :
    (engine.park run draft missing).waiting = run.waiting.park (F.keyOf draft) missing ∧
      (engine.park run draft missing).desk.world.shelf =
        (engine.area.save run.desk.world.shelf ⟨F.keyOf draft, draft, missing⟩).shelf ∧
      (engine.park run draft missing).desk.tally = run.desk.tally.withWaiting
        (UInt64.ofNat (run.waiting.park (F.keyOf draft) missing).drafts.size) := by
  simp only [park, Area.save_of_calm hCalm]
  refine ⟨rfl, ?_, ?_⟩
  · show (Desk.warn _ _ _).world.shelf = _
    rw [Desk.warn_world]
    rfl
  · show (Desk.warn _ _ _).tally = _
    rw [Desk.warn_tally]
    rfl

/-- A draft that meets a scripted fault while it is parked has failed. -/
theorem park_of_fault {fault : RemoteFault} {faults : List RemoteFault}
    (hFaults : run.desk.world.shelf.faults = fault :: faults) :
    (engine.park run draft missing).waiting = run.waiting ∧
      (engine.park run draft missing).desk.world.shelf = run.desk.world.shelf.withoutFault ∧
      (engine.park run draft missing).desk.tally = run.desk.tally.addFailed 1 := by
  simp only [park, Area.save_of_fault hFaults]
  exact ⟨rfl, rfl, rfl⟩

/-- Parking submits nothing. -/
theorem park_idle (engine : Engine F σ) (run : Run F σ) (draft : F.Draft) (missing : KeySet) :
    Desk.Idle run.desk (engine.park run draft missing).desk := by
  have hSaved : Desk.Idle run.desk
      (run.desk.adopt (engine.area.save run.desk.world.shelf ⟨F.keyOf draft, draft, missing⟩)) :=
    Desk.adopt_idle
  simp only [park]
  split
  · exact hSaved.trans (.of_remote rfl .refl)
  · refine hSaved.trans (.of_remote ?_ ?_)
    · show (Desk.warn _ _ _).world.remote = _
      rw [Desk.warn_world]
      rfl
    · exact Appends.trans (.single rfl) (Desk.enterIf_journal rfl)

/-- Of the world, parking changes the shelf only. -/
theorem park_world : (engine.park run draft missing).desk.world =
    run.desk.world.withShelf (engine.park run draft missing).desk.world.shelf := by
  simp only [park]
  split
  · rfl
  · show (Desk.warn _ _ _).world = run.desk.world.withShelf (Desk.warn _ _ _).world.shelf
    rw [Desk.warn_world]
    rfl

theorem park_remote :
    (engine.park run draft missing).desk.world.remote = run.desk.world.remote := by
  rw [park_world]
  rfl

/-- Parking the incomplete drafts of a batch is idle. -/
theorem parkIncomplete_idle {existing : KeySet} {drafts : List F.Draft} :
    Desk.Idle run.desk (engine.parkIncomplete existing run drafts).2.desk := by
  induction drafts generalizing run with
  | nil => exact .refl
  | cons draft rest ih =>
      simp only [parkIncomplete]
      split
      · exact ih
      · exact (park_idle engine run draft _).trans ih

theorem mem_park_drafts {waiting : Waiting} {key other : String} :
    other ∈ (waiting.park key missing).drafts ↔ other = key ∨ other ∈ waiting.drafts :=
  KeySet.mem_insert

/-- A parked draft waits, or nothing new waits. -/
theorem mem_waiting_of_park {key : String} (hKey : key ∈ (engine.park run draft missing).waiting.drafts) :
    key = F.keyOf draft ∨ key ∈ run.waiting.drafts := by
  cases hFaults : run.desk.world.shelf.faults with
  | nil =>
      rw [(park_of_calm hFaults).1] at hKey
      exact mem_park_drafts.mp hKey
  | cons fault faults =>
      rw [(park_of_fault hFaults).1] at hKey
      exact Or.inr hKey

/-- A draft waits after the incomplete ones of a list are parked only if it did before or is one of
them. -/
theorem mem_waiting_of_parkIncomplete {existing : KeySet} {drafts : List F.Draft} {key : String}
    (hKey : key ∈ (engine.parkIncomplete existing run drafts).2.waiting.drafts) :
    key ∈ run.waiting.drafts ∨ key ∈ drafts.map F.keyOf := by
  induction drafts generalizing run with
  | nil => exact Or.inl hKey
  | cons draft rest ih =>
      rw [List.map_cons, List.mem_cons]
      simp only [parkIncomplete] at hKey
      split at hKey
      · rcases ih hKey with hOld | hNew
        · exact Or.inl hOld
        · exact Or.inr (Or.inr hNew)
      · rcases ih hKey with hParked | hNew
        · rcases mem_waiting_of_park hParked with hDraft | hOld
          · exact Or.inr (Or.inl hDraft)
          · exact Or.inl hOld
        · exact Or.inr (Or.inr hNew)

/-- Parking leaves the records of other drafts alone. -/
theorem park_get?_ne {key : String} (hNe : key ≠ F.keyOf draft) :
    (engine.park run draft missing).desk.world.shelf.get? engine.area.container key =
      run.desk.world.shelf.get? engine.area.container key := by
  cases hFaults : run.desk.world.shelf.faults with
  | nil =>
      rw [(park_of_calm hFaults).2.1]
      exact Area.save_get?_ne hNe
  | cons fault faults =>
      rw [(park_of_fault hFaults).2.1]
      rfl

/-- Parking a draft keeps the waiting drafts backed, if its own record satisfies the condition and
the records that it does not replace still do. -/
theorem park_backs {good fine : Parked F → Prop}
    (hBacks : engine.area.Backs run.desk.world.shelf good run.waiting.drafts)
    (hWaits : ¬ missing.isEmpty = true)
    (hRefers : ∀ reference ∈ missing, reference ∈ F.references draft)
    (hFine : ∀ record, (run.desk.world.shelf.faults = [] → record.key ≠ F.keyOf draft) →
      good record → fine record)
    (hNew : run.desk.world.shelf.faults = [] → fine ⟨F.keyOf draft, draft, missing⟩) :
    engine.area.Backs (engine.park run draft missing).desk.world.shelf fine
      (engine.park run draft missing).waiting.drafts := by
  cases hFaults : run.desk.world.shelf.faults with
  | nil =>
      obtain ⟨hWaiting, hShelf, -⟩ := @park_of_calm F σ engine run draft missing hFaults
      intro key hKey
      by_cases hSame : key = F.keyOf draft
      · refine ⟨⟨F.keyOf draft, draft, missing⟩, hSame.symm, ⟨?_, rfl, hWaits, hRefers⟩,
          hNew hFaults⟩
        rw [hShelf]
        exact Area.get?_save_of_calm hFaults
      · have hOld : key ∈ run.waiting.drafts := (mem_waiting_of_park hKey).resolve_left hSame
        obtain ⟨record, rfl, hStages, hGood⟩ := hBacks key hOld
        exact ⟨record, rfl, hStages.congr (park_get?_ne hSame),
          hFine record (fun _ => hSame) hGood⟩
  | cons fault faults =>
      -- The draft has failed: it does not wait, and an older record under its key is still there.
      obtain ⟨hWaiting, hShelf, -⟩ := @park_of_fault F σ engine run draft missing _ _ hFaults
      rw [hWaiting, hShelf]
      refine hBacks.mono (fun _ hKey => hKey) (fun _ _ => rfl) fun record _ hGood =>
        hFine record (fun hCalm => ?_) hGood
      rw [hFaults] at hCalm
      cases hCalm

/-! ## Settling -/

variable {outcomes : List (String × Phase)}

theorem clearRecords_idle {desk : Desk F σ} :
    Desk.Idle desk (engine.clearRecords desk outcomes) := by
  induction outcomes generalizing desk with
  | nil => exact .refl
  | cons outcome rest ih =>
      unfold clearRecords
      split
      · exact Desk.adopt_idle.trans ih
      · exact ih

theorem clearRecords_tally {desk : Desk F σ} :
    (engine.clearRecords desk outcomes).tally = desk.tally := by
  induction outcomes generalizing desk with
  | nil => rfl
  | cons outcome rest ih =>
      unfold clearRecords
      split
      · exact ih
      · exact ih

/-- The records of other drafts are left alone. -/
theorem clearRecords_get?_ne {desk : Desk F σ} {key : String}
    (hOther : ¬ key ∈ outcomes.map (·.1)) :
    (engine.clearRecords desk outcomes).world.shelf.get? engine.area.container key =
      desk.world.shelf.get? engine.area.container key := by
  induction outcomes generalizing desk with
  | nil => rfl
  | cons outcome rest ih =>
      rw [List.map_cons, List.mem_cons, not_or] at hOther
      unfold clearRecords
      split
      · rw [ih hOther.2]
        exact Area.delete_get?_ne hOther.1
      · exact ih hOther.2

theorem clearRecords_world {desk : Desk F σ} : (engine.clearRecords desk outcomes).world =
    desk.world.withShelf (engine.clearRecords desk outcomes).world.shelf := by
  induction outcomes generalizing desk with
  | nil => rfl
  | cons outcome rest ih =>
      unfold clearRecords
      split
      · exact ih
      · exact ih

/-- Without scripted faults the records of drafts that succeeded are gone. -/
theorem clearRecords_of_calm {desk : Desk F σ} (hCalm : desk.world.shelf.faults = [])
    (hSuccess : ∀ outcome ∈ outcomes, outcome.2.isSuccess = true) :
    (engine.clearRecords desk outcomes).world.shelf.faults = [] ∧
      ∀ key ∈ outcomes.map (·.1),
        (engine.clearRecords desk outcomes).world.shelf.get? engine.area.container key = none := by
  induction outcomes generalizing desk with
  | nil => exact ⟨hCalm, fun key hKey => absurd hKey List.not_mem_nil⟩
  | cons outcome rest ih =>
      obtain ⟨hGone, hStill⟩ := @Area.delete_of_calm F engine.area desk.world.shelf outcome.1 hCalm
      obtain ⟨hAfter, hRest⟩ := @ih (desk.adopt (engine.area.delete desk.world.shelf outcome.1))
        hStill fun other hOther => hSuccess other (List.mem_cons_of_mem _ hOther)
      unfold clearRecords
      rw [if_pos (hSuccess outcome (List.mem_cons_self ..))]
      refine ⟨hAfter, fun key hKey => ?_⟩
      by_cases hLater : key ∈ rest.map (·.1)
      · exact hRest key hLater
      · have hSame : key = outcome.1 := (List.mem_cons.mp hKey).resolve_right hLater
        rw [clearRecords_get?_ne hLater, hSame]
        exact hGone

/-- The drafts that ended do not wait any more, whether any of them did or not. -/
theorem settle_waiting :
    (engine.settle run outcomes).waiting = (run.waiting.releaseEach outcomes).2 := by
  simp only [settle]
  split
  · rename_i hNone
    exact (Waiting.releaseEach_of_isEmpty hNone).symm
  · rfl

theorem mem_settle_drafts {key : String} :
    key ∈ (engine.settle run outcomes).waiting.drafts ↔
      key ∈ run.waiting.drafts ∧ ¬ key ∈ outcomes.map (·.1) := by
  rw [settle_waiting, Waiting.mem_releaseEach_drafts]

/-- Settling submits nothing. -/
theorem settle_idle (engine : Engine F σ) (run : Run F σ) (outcomes : List (String × Phase)) :
    Desk.Idle run.desk (engine.settle run outcomes).desk := by
  simp only [settle]
  split
  · exact .refl
  · have hGauged : Desk.Idle run.desk
        (run.withWaiting (run.waiting.releaseEach outcomes).2).gauge.desk := .of_remote rfl .refl
    exact hGauged.trans clearRecords_idle

/-- Of the world, settling changes the shelf only. -/
theorem settle_world : (engine.settle run outcomes).desk.world =
    run.desk.world.withShelf (engine.settle run outcomes).desk.world.shelf := by
  simp only [settle]
  split
  · rfl
  · exact clearRecords_world

theorem settle_remote :
    (engine.settle run outcomes).desk.world.remote = run.desk.world.remote := by
  rw [settle_world]
  rfl

/-- Without scripted faults, settling drafts that succeeded clears the records of those that
waited. -/
theorem settle_of_calm (hCalm : run.desk.world.shelf.faults = [])
    (hSuccess : ∀ outcome ∈ outcomes, outcome.2.isSuccess = true) :
    (engine.settle run outcomes).desk.world.shelf.faults = [] ∧
      ∀ key ∈ outcomes.map (·.1), key ∈ run.waiting.drafts →
        (engine.settle run outcomes).desk.world.shelf.get? engine.area.container key = none := by
  have hReleased : ∀ outcome ∈ (run.waiting.releaseEach outcomes).1,
      outcome.2.isSuccess = true := fun outcome hMem =>
    hSuccess outcome (Waiting.of_mem_releaseEach hMem).1
  simp only [settle]
  split
  · rename_i hNone
    refine ⟨hCalm, fun key hKey hWaits => ?_⟩
    have hMem := Waiting.mem_releaseEach_of_mem hKey hWaits
    rw [List.isEmpty_iff.mp hNone] at hMem
    exact absurd hMem List.not_mem_nil
  · obtain ⟨hAfter, hGone⟩ := @clearRecords_of_calm F σ engine _
      (run.withWaiting (run.waiting.releaseEach outcomes).2).gauge.desk hCalm hReleased
    exact ⟨hAfter, fun key hKey hWaits => hGone key (Waiting.mem_releaseEach_of_mem hKey hWaits)⟩

/-- A gauge that shows how many drafts wait shows it after settling. -/
theorem settle_tally
    (hGauge : run.desk.tally.waiting = UInt64.ofNat run.waiting.drafts.size) :
    (engine.settle run outcomes).desk.tally = run.desk.tally.withWaiting
      (UInt64.ofNat (engine.settle run outcomes).waiting.drafts.size) := by
  simp only [settle]
  split
  · rw [← hGauge]
    rfl
  · exact clearRecords_tally

theorem settle_failed :
    (engine.settle run outcomes).desk.tally.failed = run.desk.tally.failed := by
  simp only [settle]
  split
  · rfl
  · show (engine.clearRecords _ _).tally.failed = _
    rw [clearRecords_tally]
    rfl

/-- Settling leaves the records alone but for those of waiting drafts that ended. -/
theorem settle_get?_ne {key : String}
    (hOther : ¬ (key ∈ outcomes.map (·.1) ∧ key ∈ run.waiting.drafts)) :
    (engine.settle run outcomes).desk.world.shelf.get? engine.area.container key =
      run.desk.world.shelf.get? engine.area.container key := by
  simp only [settle]
  split
  · rfl
  · refine clearRecords_get?_ne fun hReleased => hOther ?_
    obtain ⟨outcome, hMem, rfl⟩ := List.mem_map.mp hReleased
    obtain ⟨hEnded, hWaited⟩ := Waiting.of_mem_releaseEach hMem
    exact ⟨List.mem_map_of_mem hEnded, hWaited⟩

/-- Settling keeps the drafts that still wait backed. -/
theorem settle_backs {good : Parked F → Prop}
    (hBacks : engine.area.Backs run.desk.world.shelf good run.waiting.drafts) :
    engine.area.Backs (engine.settle run outcomes).desk.world.shelf good
      (engine.settle run outcomes).waiting.drafts :=
  hBacks.mono (fun _ hKey => (mem_settle_drafts.mp hKey).1)
    (fun _ hKey => settle_get?_ne fun hBoth => (mem_settle_drafts.mp hKey).2 hBoth.1)
    fun _ _ hGood => hGood

/-! ## One round -/

/-- A desk after the records of a round are sorted out: those that still miss something are written
again with what they miss. All else is left alone, and no fault of the shelf is left. -/
structure Sorts (engine : Engine F σ) (available : KeySet) (records : List (Parked F))
    (before after : Desk F σ) : Prop where
  idle : Desk.Idle before after
  remote : after.world.remote = before.world.remote
  tally : after.tally = before.tally
  calm : after.world.shelf.faults = []
  others : ∀ key, ¬ key ∈ records.map (·.key) →
    after.world.shelf.get? engine.area.container key =
      before.world.shelf.get? engine.area.container key
  stored : ∀ record ∈ records, ¬ record.isReady available = true →
    after.world.shelf.get? engine.area.container record.key =
      some (Parked.codec.encode (record.without available))

/-- The run in which a round syncs: the entries of the available keys are used up. -/
def roundRun (run : Run F σ) (available : KeySet) (desk : Desk F σ) : Run F σ :=
  (run.withWaiting (run.waiting.forget available)).withDesk desk

/-- The drafts of the records that miss nothing any more, in batches. -/
def readyBatches (engine : Engine F σ) (available : KeySet) (records : List (Parked F)) :
    List (List F.Draft) :=
  engine.options.batches ((records.filter (Parked.isReady available)).map (·.draft))

theorem mem_readyBatches {records : List (Parked F)} :
    draft ∈ (engine.readyBatches available records).flatten ↔
      ∃ record ∈ records, record.isReady available = true ∧ record.draft = draft := by
  rw [readyBatches, Options.flatten_batches, List.mem_map]
  simp only [List.mem_filter, and_assoc]

/-- The drafts that a round syncs are different, and all of them waited. -/
theorem readyBatches_keys {records : List (Parked F)}
    (hKeys : records.map (·.key) = (run.waiting.waitingOn available).toList)
    (hStages : ∀ record ∈ records, engine.area.Stages run.desk.world.shelf record) :
    (((engine.readyBatches available records).flatten).map F.keyOf).Nodup ∧
      ∀ key ∈ ((engine.readyBatches available records).flatten).map F.keyOf,
        key ∈ run.waiting.drafts := by
  have hSame : ((engine.readyBatches available records).flatten).map F.keyOf =
      (records.filter (Parked.isReady available)).map (·.key) := by
    rw [readyBatches, Options.flatten_batches, List.map_map]
    refine List.map_congr_left fun record hRecord => ?_
    exact (hStages record (List.mem_filter.mp hRecord).1).key
  have hSub : ((records.filter (Parked.isReady available)).map (·.key)).Sublist
      (run.waiting.waitingOn available).toList := by
    rw [← hKeys]
    exact List.Sublist.map _ List.filter_sublist
  rw [hSame]
  refine ⟨hSub.nodup (KeySet.nodup_toList _), fun key hKey => ?_⟩
  exact (Waiting.mem_waitingOn.mp (hSub.mem hKey)).1

/-- Giving drafts up changes neither the remote nor the shelf. -/
theorem abandon_world {drafts : KeySet} {cause : Cause} :
    (engine.abandon run drafts cause).desk.world = run.desk.world := Desk.failMany_world

theorem abandon_idle (engine : Engine F σ) (run : Run F σ) (drafts : KeySet) (cause : Cause) :
    Desk.Idle run.desk (engine.abandon run drafts cause).desk :=
  .of_remote (congrArg World.remote abandon_world) (Desk.enterIf_journal rfl)

theorem mem_abandon_drafts {drafts : KeySet} {cause : Cause} {key : String} :
    key ∈ (engine.abandon run drafts cause).waiting.drafts ↔
      key ∈ run.waiting.drafts ∧ ¬ key ∈ drafts := KeySet.mem_diff

/-- The records that a fetch of backed drafts answers are sorted out without a fault. -/
theorem sortRecords_sorts {desk : Desk F σ} {records : List (Parked F)} {shelf : Shelf}
    (hCalm : shelf.faults = []) (hNodup : (records.map (·.key)).Nodup)
    (hSame : ∀ key, shelf.get? engine.area.container key =
      desk.world.shelf.get? engine.area.container key) :
    Sorts engine available records desk
      (engine.sortRecords available (desk.withShelf shelf) records).2 where
  idle := by
    have hFetched : Desk.Idle desk (desk.withShelf shelf) := .of_remote rfl .refl
    exact hFetched.trans sortRecords_idle
  remote := sortRecords_remote
  tally := sortRecords_tally
  calm := sortRecords_faults_of_calm hCalm
  others key hOther := by
    rw [← hSame key]
    refine sortRecords_get?_ne fun record hMem hKey => hOther ?_
    exact hKey ▸ List.mem_map_of_mem hMem
  stored _ hMem hWaits := sortRecords_stored hCalm hNodup hMem hWaits

/-- The two ways in which a round for backed drafts ends: its fetch meets a scripted fault and the
drafts are given up, or their records are sorted out and what is ready is synced. -/
theorem releaseRound_cases {good : Parked F → Prop}
    (hSome : ¬ (run.waiting.waitingOn available).isEmpty = true)
    (hBacks : engine.area.Backs run.desk.world.shelf good run.waiting.drafts) :
    (∃ shelf cause, run.desk.world.shelf.faults ≠ [] ∧
        (∀ key, shelf.get? engine.area.container key =
          run.desk.world.shelf.get? engine.area.container key) ∧
        engine.releaseRound run available (run.waiting.waitingOn available) =
          (∅, engine.abandon (roundRun run available (run.desk.withShelf shelf))
            (run.waiting.waitingOn available) cause)) ∨
      ∃ records sorted,
        records.map (·.key) = (run.waiting.waitingOn available).toList ∧
        (∀ record ∈ records, engine.area.Stages run.desk.world.shelf record ∧ good record) ∧
        Sorts engine available records run.desk sorted ∧
        engine.releaseRound run available (run.waiting.waitingOn available) =
          (createdKeys (Desk.syncBatches engine.options sorted
              (engine.readyBatches available records)).1,
            engine.settle
              (roundRun run available (Desk.syncBatches engine.options sorted
                (engine.readyBatches available records)).2)
              (Desk.syncBatches engine.options sorted
                (engine.readyBatches available records)).1) := by
  have hConcerned : engine.area.Backs run.desk.world.shelf good
      (run.waiting.waitingOn available) :=
    hBacks.mono (fun _ hKey => (Waiting.mem_waitingOn.mp hKey).1) (fun _ _ => rfl)
      fun _ _ hGood => hGood
  have hSame : ∀ key, (engine.area.fetch run.desk.world.shelf
      (run.waiting.waitingOn available)).2.get? engine.area.container key =
        run.desk.world.shelf.get? engine.area.container key := fun key => Area.fetch_get?
  rcases Area.fetch_of_backs hSome hConcerned with
    ⟨fault, faults, hFaults, hFetch⟩ | ⟨hCalm, hAfter, records, hFetch, hKeys, hAll⟩
  · refine Or.inl ⟨_, .remote fault, by simp [hFaults], hSame, ?_⟩
    simp only [releaseRound, hFetch]
    rfl
  · have hNodup : (records.map (·.key)).Nodup := hKeys ▸ KeySet.nodup_toList _
    refine Or.inr ⟨records, _, hKeys, hAll, sortRecords_sorts hAfter hNodup hSame, ?_⟩
    simp only [releaseRound, hFetch, sortRecords_drafts]
    rfl

/-- After the records of a round are sorted out and what is ready is synced, the drafts that still
wait are backed: by the record that they had, or by what it still misses. -/
theorem round_backs (synced : Desk F σ) {good fine : Parked F → Prop} {records : List (Parked F)}
    {desk : Desk F σ}
    (hBacks : engine.area.Backs run.desk.world.shelf good run.waiting.drafts)
    (hKeys : records.map (·.key) = (run.waiting.waitingOn available).toList)
    (hRecords : ∀ record ∈ records, engine.area.Stages run.desk.world.shelf record ∧ good record)
    (hSorts : Sorts engine available records run.desk desk)
    (hWithout : ∀ record, good record → fine (record.without available))
    (hApart : ∀ record, record.key ∈ run.waiting.drafts →
      ¬ record.key ∈ run.waiting.waitingOn available → good record → fine record) :
    engine.area.Backs desk.world.shelf fine
      (engine.settle (roundRun run available synced)
        (Desk.syncBatches engine.options desk
          (engine.readyBatches available records)).1).waiting.drafts := by
  intro key hKey
  obtain ⟨hWaits, hOpen⟩ := mem_settle_drafts.mp hKey
  by_cases hConcerned : key ∈ run.waiting.waitingOn available
  · have hMem : key ∈ records.map (·.key) := hKeys ▸ hConcerned
    obtain ⟨record, hRecord, rfl⟩ := List.mem_map.mp hMem
    obtain ⟨hStages, hGood⟩ := hRecords record hRecord
    -- What was ready was synced, so its draft has an outcome and was settled.
    have hReady : ¬ record.isReady available = true := by
      intro hReady
      refine hOpen ?_
      rw [Desk.keys_syncBatches, ← hStages.key]
      exact List.mem_map_of_mem (mem_readyBatches.mpr ⟨record, hRecord, hReady, rfl⟩)
    refine ⟨record.without available, rfl, ⟨hSorts.stored record hRecord hReady, hStages.key,
      hReady, fun reference hMissing => ?_⟩, hWithout record hGood⟩
    exact hStages.refers reference (KeySet.mem_diff.mp hMissing).1
  · obtain ⟨record, rfl, hStages, hGood⟩ := hBacks key hWaits
    exact ⟨record, rfl, hStages.congr (hSorts.others _ (hKeys ▸ hConcerned)),
      hApart record hWaits hConcerned hGood⟩

/-- What every round keeps, with the keys that it created pending, is kept by a whole release, with
no key pending. -/
theorem release_induct {P : KeySet → Run F σ → Prop}
    (hRound : ∀ available run, ¬ (run.waiting.waitingOn available).isEmpty = true →
      P available run →
        P (engine.releaseRound run available (run.waiting.waitingOn available)).1
          (engine.releaseRound run available (run.waiting.waitingOn available)).2)
    (hEnd : ∀ available run, (run.waiting.waitingOn available).isEmpty = true →
      P available run → P ∅ (run.withWaiting (run.waiting.forget available)))
    (hRun : P available run) : P ∅ (engine.release run available) := by
  fun_induction Engine.release engine run available with
  | case1 run available hNone => exact hEnd available run hNone hRun
  | case2 run available hSome round ih => exact ih (hRound available run hSome hRun)

end CatalogSync.Engine
