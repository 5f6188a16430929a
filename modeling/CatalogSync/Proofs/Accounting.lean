import CatalogSync.Catalog.Families
import CatalogSync.Proofs.Vetoing
import Mathlib.Algebra.Group.Nat.Defs

/-!
# Every draft is counted once

A draft that is handed in ends in one of many places: turned away, blocked by a failing resolver,
lost while it is parked, failed with its whole batch, created, vetoed, updated, or given up while it
waits. Some of these are counted one by one and some in bulk. The account of a desk is the exact
number of drafts that have ended, whatever way they took; the invariant of a run is that this number
and the number of waiting drafts add up to the number of drafts that were handed in and are out of
hand.

The tally itself wraps around. So the account keeps natural numbers beside it, of which the tally
shows the remainders.

## Main results

* `Desk.Counts.syncBatch`: a batch ends as many drafts as it has.
* `Engine.releaseRound_accounted`: a round neither loses a draft nor counts one twice.
* `Engine.accounted`: every draft handed in is counted once.
-/

namespace CatalogSync

variable {F : Family} {σ : Type}

/-! ## The account of a desk -/

namespace Desk

variable {options : Options F σ} {draft : F.Draft} {desk after : Desk F σ} {ended waiting : Nat}

/-- A number of drafts have ended, and the tally shows how and that others wait. It has no place for
the skipped ones, which are counted in the journal. -/
def Counts (desk : Desk F σ) (ended waiting : Nat) : Prop :=
  ∃ created updated upToDate failed : Nat,
    desk.tally = ⟨.ofNat created, .ofNat updated, .ofNat upToDate, .ofNat failed, .ofNat waiting⟩ ∧
      created + updated + upToDate + failed + desk.skipped.length = ended

/-- Steps that end no draft keep the account. -/
theorem Counts.of_tally (hCounts : Counts desk ended waiting) (hTally : after.tally = desk.tally)
    (hSkipped : after.skipped = desk.skipped) : Counts after ended waiting := by
  unfold Counts
  rw [hTally, hSkipped]
  exact hCounts

/-- Setting the gauge keeps the account. -/
theorem Counts.gauge (hCounts : Counts desk ended waiting) {number : Nat}
    (hTally : after.tally = desk.tally.withWaiting (.ofNat number))
    (hSkipped : after.skipped = desk.skipped) : Counts after ended number := by
  obtain ⟨created, updated, upToDate, failed, hBefore, hSum⟩ := hCounts
  refine ⟨created, updated, upToDate, failed, ?_, hSkipped ▸ hSum⟩
  rw [hTally, hBefore]
  rfl

/-- Drafts that fail together are counted in bulk. -/
theorem Counts.addFailed (hCounts : Counts desk ended waiting) {number : Nat}
    (hTally : after.tally = desk.tally.addFailed (.ofNat number))
    (hSkipped : after.skipped = desk.skipped) : Counts after (ended + number) waiting := by
  obtain ⟨created, updated, upToDate, failed, hBefore, hSum⟩ := hCounts
  refine ⟨created, updated, upToDate, failed + number, ?_, ?_⟩
  · rw [hTally, hBefore, UInt64.ofNat_add]
    rfl
  · rw [hSkipped]
    omega

theorem Counts.failMany (hCounts : Counts desk ended waiting) (message : String) (cause : Cause)
    (number : Nat) : Counts (desk.failMany options message cause number) (ended + number) waiting := by
  refine hCounts.addFailed ?_ (skipped_of_idle failMany_idle.journal)
  show Tally.addFailed _ _ = _
  rfl

/-- Screening ends the drafts that it turns away. -/
theorem Counts.screen (hCounts : Counts desk ended waiting) {drafts : List (Option F.Draft)} :
    ∃ turned, Counts (screen options desk drafts).2 (ended + turned) waiting ∧
      turned + (screen options desk drafts).1.length = drafts.length := by
  induction drafts generalizing desk ended with
  | nil => exact ⟨0, hCounts, rfl⟩
  | cons draft rest ih =>
      have hTurned : ∀ message reason, ∃ turned,
          Counts (Desk.screen options (desk.failInvalid options message reason) rest).2
            (ended + turned) waiting ∧
          turned + (Desk.screen options (desk.failInvalid options message reason) rest).1.length =
            rest.length + 1 := by
        intro message reason
        have hFailed : Counts (desk.failInvalid options message reason) (ended + 1) waiting :=
          hCounts.failMany message (.invalidDraft reason) 1
        obtain ⟨turned, hAfter, hLength⟩ := ih hFailed
        refine ⟨1 + turned, ?_, ?_⟩
        · rw [← Nat.add_assoc]
          exact hAfter
        · omega
      cases draft with
      | none => exact hTurned _ _
      | some draft =>
          unfold Desk.screen
          split
          · obtain ⟨turned, hAfter, hLength⟩ := ih hCounts
            refine ⟨turned, hAfter, ?_⟩
            rw [List.length_cons, List.length_cons, ← hLength, Nat.add_assoc]
          · exact hTurned _ _

/-! ## Drafts that are processed -/

/-- How a draft ended is counted in one place. -/
theorem Counts.close (hCounts : Counts desk ended waiting) {phase : Phase}
    (hEnd : phase.isEnd = true) : Counts (desk.close draft phase) (ended + 1) waiting := by
  obtain ⟨created, updated, upToDate, failed, hTally, hSum⟩ := hCounts
  have hRecorded : (desk.close draft phase).tally = desk.tally.record phase := rfl
  have hSkipped : (desk.close draft phase).skipped.length =
      desk.skipped.length + (if phase = .skipped then [draft] else []).length := by
    rw [close_skipped, List.length_append]
  unfold Counts
  rw [hRecorded, hSkipped, hTally]
  cases phase with
  | created =>
      refine ⟨created + 1, updated, upToDate, failed, ?_, ?_⟩
      · rw [UInt64.ofNat_add]
        rfl
      · show created + 1 + updated + upToDate + failed + (desk.skipped.length + 0) = ended + 1
        omega
  | updated =>
      refine ⟨created, updated + 1, upToDate, failed, ?_, ?_⟩
      · rw [UInt64.ofNat_add]
        rfl
      · show created + (updated + 1) + upToDate + failed + (desk.skipped.length + 0) = ended + 1
        omega
  | upToDate =>
      refine ⟨created, updated, upToDate + 1, failed, ?_, ?_⟩
      · rw [UInt64.ofNat_add]
        rfl
      · show created + updated + (upToDate + 1) + failed + (desk.skipped.length + 0) = ended + 1
        omega
  | failed =>
      refine ⟨created, updated, upToDate, failed + 1, ?_, ?_⟩
      · rw [UInt64.ofNat_add]
        rfl
      · show created + updated + upToDate + (failed + 1) + (desk.skipped.length + 0) = ended + 1
        omega
  | skipped =>
      refine ⟨created, updated, upToDate, failed, rfl, ?_⟩
      show created + updated + upToDate + failed + (desk.skipped.length + 1) = ended + 1
      omega
  | _ => cases hEnd

/-- A processed draft has ended. -/
theorem Counts.process (hCounts : Counts desk ended waiting)
    {old : Option F.Resource} :
    Counts (desk.process options draft old).2 (ended + 1) waiting := by
  have hSynced : Counts (desk.sync options draft old).2 ended waiting :=
    hCounts.of_tally sync_tally (sync_skipped desk draft old)
  exact hSynced.close sync_isEnd

variable {drafts : List F.Draft} {batches : List (List F.Draft)}

theorem Counts.processAll {found : KeyMap F.Resource}
    (hCounts : Counts desk ended waiting) :
    Counts (processAll options found desk drafts).2 (ended + drafts.length) waiting := by
  induction drafts generalizing desk ended with
  | nil => exact hCounts
  | cons draft rest ih =>
      have hFirst : Counts (desk.process options draft ((F.draftKey draft).bind found.get?)).2
          (ended + 1) waiting := hCounts.process
      rw [List.length_cons, Nat.add_comm rest.length, ← Nat.add_assoc]
      exact ih hFirst

/-- A batch ends as many drafts as it has, whether they are processed or fail together. -/
theorem Counts.syncBatch (hCounts : Counts desk ended waiting) :
    Counts (desk.syncBatch options drafts).2 (ended + drafts.length) waiting := by
  have hLooked : Counts (desk.lookup (F.keysOf drafts)).2 ended waiting :=
    hCounts.of_tally rfl rfl
  unfold Desk.syncBatch
  split
  · rename_i hNone
    rw [List.isEmpty_iff.mp hNone]
    exact hCounts
  · simp only
    split
    · exact hLooked.processAll
    · exact hLooked.failMany _ _ _

theorem Counts.syncBatches (hCounts : Counts desk ended waiting) :
    Counts (syncBatches options desk batches).2 (ended + batches.flatten.length) waiting := by
  induction batches generalizing desk ended with
  | nil => exact hCounts
  | cons batch rest ih =>
      rw [List.flatten_cons, List.length_append, ← Nat.add_assoc]
      exact ih hCounts.syncBatch

end Desk

/-! ## The account of a run -/

namespace Engine

variable {engine : Engine F σ} {run : Run F σ} {handed : Nat} {seen : List String}

/-- Of a number of drafts handed in, those that have not ended wait, each under one of the keys seen
so far and backed by its record. -/
structure Accounted (engine : Engine F σ) (handed : Nat) (seen : List String) (run : Run F σ) :
    Prop where
  counts : ∃ ended, run.desk.Counts ended run.waiting.drafts.size ∧
    ended + run.waiting.drafts.size = handed
  backs : engine.area.Backs run.desk.world.shelf (fun _ => True) run.waiting.drafts
  seen : ∀ key ∈ run.waiting.drafts, key ∈ seen

/-- A desk that ended some drafts and left the shelf alone accounts for these, too. -/
theorem Accounted.withDesk {desk : Desk F σ} {more : Nat}
    (hAccounted : Accounted engine handed seen run)
    (hCounts : ∀ ended, run.desk.Counts ended run.waiting.drafts.size →
      desk.Counts (ended + more) run.waiting.drafts.size)
    (hShelf : desk.world.shelf = run.desk.world.shelf) :
    Accounted engine (handed + more) seen (run.withDesk desk) := by
  obtain ⟨ended, hBefore, hSum⟩ := hAccounted.counts
  refine ⟨⟨ended + more, hCounts ended hBefore, ?_⟩, ?_, hAccounted.seen⟩
  · show ended + more + run.waiting.drafts.size = handed + more
    omega
  · show engine.area.Backs desk.world.shelf _ run.waiting.drafts
    rw [hShelf]
    exact hAccounted.backs

/-- A draft with a new key that is parked waits, or it has failed. -/
theorem park_accounted {draft : F.Draft} {missing : KeySet}
    (hAccounted : Accounted engine handed seen run) (hSeen : F.keyOf draft ∈ seen)
    (hNew : ¬ F.keyOf draft ∈ run.waiting.drafts) (hWaits : ¬ missing.isEmpty = true)
    (hRefers : ∀ reference ∈ missing, reference ∈ F.references draft) :
    Accounted engine (handed + 1) seen (engine.park run draft missing) := by
  obtain ⟨ended, hCounts, hSum⟩ := hAccounted.counts
  have hSkipped : (engine.park run draft missing).desk.skipped = run.desk.skipped :=
    Desk.skipped_of_idle (park_idle engine run draft missing).journal
  refine ⟨?_, park_backs hAccounted.backs hWaits hRefers (fun _ _ hGood => hGood) fun _ => trivial,
    fun key hKey => ?_⟩
  · cases hFaults : run.desk.world.shelf.faults with
    | nil =>
        obtain ⟨hWaiting, -, hTally⟩ := @park_of_calm F σ engine run draft missing hFaults
        rw [← hWaiting] at hTally
        refine ⟨ended, hCounts.gauge hTally hSkipped, ?_⟩
        have hSize : (engine.park run draft missing).waiting.drafts.size =
            run.waiting.drafts.size + 1 := by
          rw [hWaiting]
          exact KeySet.size_insert hNew
        omega
    | cons fault faults =>
        obtain ⟨hWaiting, -, hTally⟩ := @park_of_fault F σ engine run draft missing _ _ hFaults
        rw [hWaiting]
        exact ⟨ended + 1, hCounts.addFailed hTally hSkipped, by omega⟩
  · rcases mem_waiting_of_park hKey with rfl | hOld
    · exact hSeen
    · exact hAccounted.seen key hOld

/-- Of drafts with new keys, those that are incomplete wait or have failed; the others are in hand
and do not wait. -/
theorem parkIncomplete_accounted {existing : KeySet} {drafts : List F.Draft}
    (hAccounted : Accounted engine handed seen run) (hNodup : (drafts.map F.keyOf).Nodup)
    (hSeen : ∀ draft ∈ drafts, F.keyOf draft ∈ seen)
    (hNew : ∀ draft ∈ drafts, ¬ F.keyOf draft ∈ run.waiting.drafts) :
    ∃ parked, Accounted engine (handed + parked) seen
        (engine.parkIncomplete existing run drafts).2 ∧
      parked + (engine.parkIncomplete existing run drafts).1.length = drafts.length ∧
      ∀ draft ∈ (engine.parkIncomplete existing run drafts).1,
        ¬ F.keyOf draft ∈ (engine.parkIncomplete existing run drafts).2.waiting.drafts := by
  induction drafts generalizing run handed with
  | nil => exact ⟨0, hAccounted, rfl, by simp [parkIncomplete]⟩
  | cons draft rest ih =>
      rw [List.map_cons, List.nodup_cons] at hNodup
      have hSeenRest : ∀ other ∈ rest, F.keyOf other ∈ seen := fun other hOther =>
        hSeen other (List.mem_cons_of_mem _ hOther)
      have hNewRest : ∀ other ∈ rest, ¬ F.keyOf other ∈ run.waiting.drafts := fun other hOther =>
        hNew other (List.mem_cons_of_mem _ hOther)
      have hDraft := hNew draft (List.mem_cons_self ..)
      simp only [parkIncomplete]
      split
      · obtain ⟨parked, hAfter, hLength, hOpen⟩ := ih hAccounted hNodup.2 hSeenRest hNewRest
        refine ⟨parked, hAfter, ?_, fun other hOther => ?_⟩
        · rw [List.length_cons, List.length_cons, ← hLength, Nat.add_assoc]
        · rcases List.mem_cons.mp hOther with rfl | hOther
          · intro hWaits
            exact (mem_waiting_of_parkIncomplete hWaits).elim hDraft hNodup.1
          · exact hOpen other hOther
      · rename_i hSome
        have hParked := park_accounted hAccounted (hSeen draft (List.mem_cons_self ..)) hDraft hSome
          fun reference hMissing => (KeySet.mem_diff.mp hMissing).1
        have hApart : ∀ other ∈ rest, ¬ F.keyOf other ∈
            (engine.park run draft ((F.references draft).diff existing)).waiting.drafts := by
          intro other hOther hWaits
          rcases mem_waiting_of_park hWaits with hSame | hOld
          · exact hNodup.1 (hSame ▸ List.mem_map_of_mem hOther)
          · exact hNewRest other hOther hOld
        obtain ⟨parked, hAfter, hLength, hOpen⟩ := ih hParked hNodup.2 hSeenRest hApart
        refine ⟨1 + parked, ?_, ?_, hOpen⟩
        · rw [← Nat.add_assoc]
          exact hAfter
        · rw [List.length_cons, ← hLength]
          omega

/-- The drafts of a batch with new keys have ended, or they wait, or they are in hand and do not
wait, whatever the resolver answers. -/
theorem ready_accounted {resolver : Resolver F σ} {drafts : List F.Draft}
    (hResolver : ∀ world keys, (resolver world keys).2.shelf = world.shelf)
    (hAccounted : Accounted engine handed seen run) (hNodup : (drafts.map F.keyOf).Nodup)
    (hSeen : ∀ draft ∈ drafts, F.keyOf draft ∈ seen)
    (hNew : ∀ draft ∈ drafts, ¬ F.keyOf draft ∈ run.waiting.drafts) :
    ∃ blocked, Accounted engine (handed + blocked) seen (engine.ready resolver run drafts).2 ∧
      blocked + (engine.ready resolver run drafts).1.length = drafts.length ∧
      ∀ draft ∈ (engine.ready resolver run drafts).1,
        ¬ F.keyOf draft ∈ (engine.ready resolver run drafts).2.waiting.drafts := by
  by_cases hNone : (F.referencesOf drafts).isEmpty = true
  · rw [ready_of_no_references hNone]
    exact ⟨0, hAccounted, Nat.zero_add _, hNew⟩
  · have hAsked : Accounted engine (handed + 0) seen (run.withDesk
        ((run.desk.enter (.resolving (F.referencesOf drafts))).withWorld
          (resolver run.desk.world (F.referencesOf drafts)).2)) :=
      hAccounted.withDesk (fun ended hCounts =>
        hCounts.of_tally rfl (Desk.skipped_of_idle (.single rfl))) (hResolver _ _)
    simp only [ready, if_neg hNone]
    split
    · exact parkIncomplete_accounted hAsked hNodup hSeen hNew
    · refine ⟨(drafts.filter fun draft => !(F.references draft).isEmpty).length,
        hAsked.withDesk (fun ended hCounts => hCounts.failMany _ _ _)
          (congrArg World.shelf Desk.failMany_world), ?_, fun draft hDraft =>
          hNew draft (List.mem_filter.mp hDraft).1⟩
      rw [← List.countP_eq_length_filter, ← List.countP_eq_length_filter, Nat.add_comm,
        List.length_eq_countP_add_countP fun draft => (F.references draft).isEmpty]
      simp

/-! ## Settling and rounds -/

/-- Settling ends no draft, and the gauge follows. -/
theorem settle_counts {outcomes : List (String × Phase)} {ended : Nat}
    (hCounts : run.desk.Counts ended run.waiting.drafts.size) :
    (engine.settle run outcomes).desk.Counts ended
      (engine.settle run outcomes).waiting.drafts.size := by
  have hGauge : run.desk.tally.waiting = UInt64.ofNat run.waiting.drafts.size := by
    obtain ⟨created, updated, upToDate, failed, hTally, -⟩ := hCounts
    rw [hTally]
  exact hCounts.gauge (settle_tally hGauge)
    (Desk.skipped_of_idle (settle_idle engine run outcomes).journal)

/-- Settling drafts that did not wait changes nothing. -/
theorem settle_accounted {outcomes : List (String × Phase)}
    (hAccounted : Accounted engine handed seen run)
    (hOpen : ∀ key ∈ outcomes.map (·.1), ¬ key ∈ run.waiting.drafts) :
    Accounted engine handed seen (engine.settle run outcomes) := by
  obtain ⟨ended, hCounts, hSum⟩ := hAccounted.counts
  have hSame : (engine.settle run outcomes).waiting.drafts = run.waiting.drafts := by
    refine KeySet.ext fun key => ?_
    rw [mem_settle_drafts]
    exact ⟨And.left, fun hWaits => ⟨hWaits, fun hMem => hOpen key hMem hWaits⟩⟩
  refine ⟨⟨ended, settle_counts hCounts, ?_⟩, settle_backs hAccounted.backs, fun key hKey => ?_⟩
  · rw [hSame]
    exact hSum
  · exact hAccounted.seen key (mem_settle_drafts.mp hKey).1

/-- The drafts that are given up have failed. -/
theorem abandon_accounted {available concerned : KeySet} {shelf : Shelf} {cause : Cause}
    (hAccounted : Accounted engine handed seen run)
    (hConcerned : ∀ key ∈ concerned, key ∈ run.waiting.drafts)
    (hSame : ∀ key, shelf.get? engine.area.container key =
      run.desk.world.shelf.get? engine.area.container key) :
    Accounted engine handed seen
      (engine.abandon (roundRun run available (run.desk.withShelf shelf)) concerned cause) := by
  obtain ⟨ended, hCounts, hSum⟩ := hAccounted.counts
  have hSize : (run.waiting.drafts.diff concerned).size + concerned.size =
      run.waiting.drafts.size := KeySet.size_diff hConcerned
  refine ⟨⟨ended + concerned.size, ?_, ?_⟩, ?_, fun key hKey => ?_⟩
  · have hGauged : (((roundRun run available (run.desk.withShelf shelf)).withWaiting
        ((run.waiting.forget available).releaseAll concerned)).gauge).desk.Counts ended
          (run.waiting.drafts.diff concerned).size := hCounts.gauge rfl rfl
    exact hGauged.failMany _ _ _
  · show ended + concerned.size + (run.waiting.drafts.diff concerned).size = handed
    omega
  · refine hAccounted.backs.mono (fun key hKey => (mem_abandon_drafts.mp hKey).1)
      (fun key _ => ?_) fun _ _ hGood => hGood
    rw [abandon_world]
    exact hSame key
  · exact hAccounted.seen key (mem_abandon_drafts.mp hKey).1

/-- Settling takes the drafts with an outcome out of those that wait. -/
theorem settle_drafts_size {outcomes : List (String × Phase)}
    (hNodup : (outcomes.map (·.1)).Nodup)
    (hWaited : ∀ key ∈ outcomes.map (·.1), key ∈ run.waiting.drafts) :
    (engine.settle run outcomes).waiting.drafts.size + outcomes.length =
      run.waiting.drafts.size := by
  have hDiff : (engine.settle run outcomes).waiting.drafts =
      run.waiting.drafts.diff (KeySet.ofList (outcomes.map (·.1))) := by
    refine KeySet.ext fun key => ?_
    rw [mem_settle_drafts, KeySet.mem_diff, KeySet.mem_ofList]
  have hTaken := KeySet.size_diff fun key hKey => hWaited key (KeySet.mem_ofList.mp hKey)
  rw [KeySet.size_ofList hNodup, List.length_map] at hTaken
  rw [hDiff]
  exact hTaken

/-- A round neither loses a draft nor counts one twice. -/
theorem releaseRound_accounted {available : KeySet} (hQuiet : engine.options.Quiet)
    (hSome : ¬ (run.waiting.waitingOn available).isEmpty = true)
    (hAccounted : Accounted engine handed seen run) :
    Accounted engine handed seen
      (engine.releaseRound run available (run.waiting.waitingOn available)).2 := by
  rcases releaseRound_cases hSome hAccounted.backs with
    ⟨shelf, cause, -, hSame, hRound⟩ | ⟨records, sorted, hKeys, hRecords, hSorts, hRound⟩
  · rw [hRound]
    exact abandon_accounted hAccounted (fun _ hKey => (Waiting.mem_waitingOn.mp hKey).1) hSame
  · obtain ⟨ended, hCounts, hSum⟩ := hAccounted.counts
    obtain ⟨hNodup, hWaited⟩ := readyBatches_keys hKeys fun record hRecord =>
      (hRecords record hRecord).1
    generalize hBatches : engine.readyBatches available records = batches at hNodup hWaited
    generalize hSynced : Desk.syncBatches engine.options sorted batches = synced
    have hOutcomes : synced.1.map (·.1) = batches.flatten.map F.keyOf := by
      rw [← hSynced]
      exact Desk.keys_syncBatches
    have hShelf : synced.2.world.shelf = sorted.world.shelf := by
      rw [← hSynced]
      exact Desk.syncBatches_shelf hQuiet
    have hEnded : (roundRun run available synced.2).desk.Counts (ended + batches.flatten.length)
        (roundRun run available synced.2).waiting.drafts.size := by
      have hSorted : sorted.Counts ended run.waiting.drafts.size :=
        hCounts.of_tally hSorts.tally (Desk.skipped_of_idle hSorts.idle.journal)
      show synced.2.Counts _ _
      rw [← hSynced]
      exact hSorted.syncBatches
    have hSize := @settle_drafts_size F σ engine (roundRun run available synced.2) synced.1
      (hOutcomes ▸ hNodup) fun key hKey => hWaited key (hOutcomes ▸ hKey)
    have hLength : synced.1.length = batches.flatten.length := by
      simpa only [List.length_map] using congrArg List.length hOutcomes
    rw [hRound, hBatches, hSynced]
    refine ⟨⟨ended + batches.flatten.length, settle_counts hEnded, ?_⟩, ?_, fun key hKey => ?_⟩
    · rw [hLength] at hSize
      show ended + batches.flatten.length + (engine.settle _ _).waiting.drafts.size = handed
      have hWaiting : (roundRun run available synced.2).waiting.drafts.size =
          run.waiting.drafts.size := rfl
      omega
    · have hBacks := round_backs synced.2 hAccounted.backs hKeys hRecords hSorts
        (fun _ hGood => hGood) fun _ _ _ hGood => hGood
      rw [hBatches, hSynced, ← hShelf] at hBacks
      refine hBacks.mono (fun _ hKey => hKey) (fun key hKey => ?_) fun _ _ hGood => hGood
      exact settle_get?_ne fun hBoth => (mem_settle_drafts.mp hKey).2 hBoth.1
    · exact hAccounted.seen key (mem_settle_drafts.mp hKey).1

theorem release_accounted {available : KeySet} (hQuiet : engine.options.Quiet)
    (hAccounted : Accounted engine handed seen run) :
    Accounted engine handed seen (engine.release run available) := by
  refine release_induct (P := fun _ run => Accounted engine handed seen run) ?_ ?_ hAccounted
  · intro available run hSome hBefore
    exact releaseRound_accounted hQuiet hSome hBefore
  · intro available run _ hBefore
    exact ⟨hBefore.counts, hBefore.backs, hBefore.seen⟩

/-! ## Calls -/

/-- Screening a batch accounts for the drafts that it turns away. -/
theorem screen_accounted {batch : List (Option F.Draft)}
    (hAccounted : Accounted engine handed seen run) :
    Accounted engine
      (handed + (batch.length - (Desk.screen engine.options run.desk batch).1.length))
      (seen ++ F.keysIn batch) (run.withDesk (Desk.screen engine.options run.desk batch).2) := by
  have hShelf : (Desk.screen engine.options run.desk batch).2.world.shelf = run.desk.world.shelf :=
    congrArg World.shelf Desk.screen_world
  have hSeen : Accounted engine handed (seen ++ F.keysIn batch) run :=
    ⟨hAccounted.counts, hAccounted.backs, fun key hKey =>
      List.mem_append_left _ (hAccounted.seen key hKey)⟩
  refine hSeen.withDesk (fun ended hCounts => ?_) hShelf
  obtain ⟨turned, hAfter, hTurned⟩ := @Desk.Counts.screen _ _ engine.options _ _ _ hCounts batch
  rw [← hTurned, Nat.add_sub_cancel]
  exact hAfter

/-- A batch of drafts with new keys is accounted for. -/
theorem syncBatch_accounted {batch : List (Option F.Draft)} (hQuiet : engine.options.Quiet)
    (hResolver : ∀ resolver, engine.resolver = some resolver → ∀ world keys,
      (resolver world keys).2.shelf = world.shelf)
    (hNodup : (seen ++ F.keysIn batch).Nodup) (hAccounted : Accounted engine handed seen run) :
    Accounted engine (handed + batch.length) (seen ++ F.keysIn batch)
      (engine.syncBatch run batch) := by
  have hKeys : (Desk.screen engine.options run.desk batch).1.map F.keyOf = F.keysIn batch := by
    rw [Desk.screen_drafts]
    rfl
  have hLength : (Desk.screen engine.options run.desk batch).1.length ≤ batch.length := by
    rw [Desk.screen_drafts]
    exact List.length_filterMap_le ..
  have hScreened := @screen_accounted F σ engine run handed seen batch hAccounted
  have hNew : ∀ draft ∈ (Desk.screen engine.options run.desk batch).1,
      ¬ F.keyOf draft ∈ run.waiting.drafts := by
    intro draft hDraft hWaits
    have hApart := (List.nodup_append.mp hNodup).2.2
    exact hApart _ (hAccounted.seen _ hWaits) _ (hKeys ▸ List.mem_map_of_mem hDraft) rfl
  generalize hScreen : Desk.screen engine.options run.desk batch = screened at *
  unfold syncBatch
  simp only [hScreen]
  split
  · have hSynced : Accounted engine
        (handed + (batch.length - screened.1.length) + screened.1.length) (seen ++ F.keysIn batch)
        (run.withDesk (screened.2.syncBatch engine.options screened.1).2) :=
      hScreened.withDesk (fun ended hCounts => hCounts.syncBatch)
        (Desk.syncBatch_shelf hQuiet)
    rw [Nat.add_assoc, Nat.sub_add_cancel hLength] at hSynced
    exact hSynced
  · rename_i resolver hSome
    obtain ⟨blocked, hChosen, hBlocked, hOpen⟩ := ready_accounted (hResolver resolver hSome) hScreened
      (hKeys ▸ (List.nodup_append.mp hNodup).2.1)
      (fun draft hDraft => List.mem_append_right _ (hKeys ▸ List.mem_map_of_mem hDraft)) hNew
    generalize engine.ready resolver (run.withDesk screened.2) screened.1 = chosen at *
    have hSynced := hChosen.withDesk (fun ended hCounts => hCounts.syncBatch)
      (@Desk.syncBatch_shelf F σ engine.options chosen.2.desk chosen.1 hQuiet)
    have hTotal : handed + (batch.length - screened.1.length) + blocked + chosen.1.length =
        handed + batch.length := by omega
    rw [hTotal] at hSynced
    refine release_accounted hQuiet (settle_accounted hSynced fun key hKey => ?_)
    rw [Desk.keys_syncBatch] at hKey
    obtain ⟨draft, hDraft, rfl⟩ := List.mem_map.mp hKey
    exact hOpen draft hDraft

/-- Batches of drafts with new keys are accounted for, one after another. -/
theorem syncBatches_accounted {batches : List (List (Option F.Draft))}
    (hQuiet : engine.options.Quiet)
    (hResolver : ∀ resolver, engine.resolver = some resolver → ∀ world keys,
      (resolver world keys).2.shelf = world.shelf)
    (hNodup : (seen ++ F.keysIn batches.flatten).Nodup)
    (hAccounted : Accounted engine handed seen run) :
    Accounted engine (handed + batches.flatten.length) (seen ++ F.keysIn batches.flatten)
      (batches.foldl engine.syncBatch run) := by
  induction batches generalizing run handed seen with
  | nil => exact ⟨hAccounted.counts, hAccounted.backs, fun key hKey =>
      List.mem_append_left _ (hAccounted.seen key hKey)⟩
  | cons batch rest ih =>
      rw [List.flatten_cons, Family.keysIn_append, ← List.append_assoc] at hNodup ⊢
      rw [List.length_append, ← Nat.add_assoc]
      exact ih hNodup
        (syncBatch_accounted hQuiet hResolver (List.nodup_append.mp hNodup).1 hAccounted)

/-- A call accounts for all its drafts. -/
theorem sync_accounted {drafts : List (Option F.Draft)} (hQuiet : engine.options.Quiet)
    (hResolver : ∀ resolver, engine.resolver = some resolver → ∀ world keys,
      (resolver world keys).2.shelf = world.shelf)
    (hNodup : (seen ++ F.keysIn drafts).Nodup) (hAccounted : Accounted engine handed seen run) :
    Accounted engine (handed + drafts.length) (seen ++ F.keysIn drafts)
      (engine.sync run drafts) := by
  have hAll : (engine.options.batches drafts).flatten = drafts := Options.flatten_batches
  have hBatches := syncBatches_accounted hQuiet hResolver (hAll.symm ▸ hNodup) hAccounted
  rw [hAll] at hBatches
  exact hBatches

/-- Any number of errands account for all drafts that they hand in. -/
theorem follow_accounted {errands : List (Errand F)} (hQuiet : engine.options.Quiet)
    (hResolver : ∀ resolver, engine.resolver = some resolver → ∀ world keys,
      (resolver world keys).2.shelf = world.shelf)
    (hNodup : (seen ++ F.keysIn (errands.flatMap Errand.drafts)).Nodup)
    (hAccounted : Accounted engine handed seen run) :
    Accounted engine (handed + (errands.flatMap Errand.drafts).length)
      (seen ++ F.keysIn (errands.flatMap Errand.drafts)) (engine.follow run errands) := by
  induction errands generalizing run handed seen with
  | nil => exact ⟨hAccounted.counts, hAccounted.backs, fun key hKey =>
      List.mem_append_left _ (hAccounted.seen key hKey)⟩
  | cons errand rest ih =>
      rw [List.flatMap_cons, Family.keysIn_append, ← List.append_assoc] at hNodup ⊢
      rw [List.length_append, ← Nat.add_assoc]
      refine ih hNodup ?_
      rcases @perform_cases F σ engine run errand with hSync | ⟨hNone, hScript⟩
      · rw [hSync]
        exact sync_accounted hQuiet hResolver (List.nodup_append.mp hNodup).1 hAccounted
      · rw [hScript, hNone]
        obtain ⟨-, -, hContainers⟩ := @World.script_keeps F σ run.desk.world errand
        refine ⟨hAccounted.counts, ?_, fun key hKey =>
          List.mem_append_left _ (hAccounted.seen key hKey)⟩
        refine hAccounted.backs.mono (fun _ hKey => hKey) (fun key _ => ?_) fun _ _ hGood => hGood
        show (run.desk.world.script errand).shelf.get? _ key = _
        unfold Shelf.get? Shelf.container
        rw [hContainers]

/--
Every draft is counted once. If the drafts that were handed in have different keys, those without a
key left aside, then the tally, the number of vetoes and the number of drafts that wait add up to
the number of drafts: as the tally counts, and as numbers as long as fewer than 2⁶⁴ drafts were
handed in.

A veto is an answer of the hook before creation that drops a draft. The hook gives every veto that
is counted; if it takes note of its vetoes, it has noted as many; and the drafts that ended as
skipped are the vetoed ones, in the same order.
-/
theorem accounted (hQuiet : engine.options.Quiet)
    (hResolver : ∀ resolver, engine.resolver = some resolver → ∀ world keys,
      (resolver world keys).2.shelf = world.shelf)
    (world : World F σ) (errands : List (Errand F))
    (hDistinct : (F.keysIn (errands.flatMap Errand.drafts)).Nodup) :
    let desk := (engine.follow (Run.start world) errands).desk
    let handed := (errands.flatMap Errand.drafts).length
    (∀ draft ∈ desk.vetoed, engine.options.Vetoes draft) ∧
      (∀ count, engine.Remembers count →
        count desk.world.notes = count world.notes + desk.vetoes) ∧
      desk.skipped = desk.vetoed ∧
      desk.tally.created + desk.tally.updated + desk.tally.upToDate + desk.tally.failed +
        .ofNat desk.vetoes + desk.tally.waiting = .ofNat handed ∧
      (handed < 2 ^ 64 →
        desk.tally.created.toNat + desk.tally.updated.toNat + desk.tally.upToDate.toNat +
          desk.tally.failed.toNat + desk.vetoes + desk.tally.waiting.toNat = handed) := by
  intro desk handed
  have hVetted := follow_vetted engine world errands
  have hStart : Accounted engine 0 [] (Run.start world) :=
    ⟨⟨0, ⟨0, 0, 0, 0, rfl, rfl⟩, rfl⟩, fun _ hKey => absurd hKey KeySet.not_mem_empty,
      fun _ hKey => absurd hKey KeySet.not_mem_empty⟩
  obtain ⟨⟨ended, hCounts, hSum⟩, -, -⟩ := follow_accounted hQuiet hResolver hDistinct hStart
  rw [Nat.zero_add] at hSum
  obtain ⟨created, updated, upToDate, failed, hTally, hEnded⟩ := hCounts
  rw [hVetted.balanced] at hEnded
  generalize (engine.follow (Run.start world) errands).waiting.drafts.size = waiting at *
  have hTotal : created + updated + upToDate + failed + desk.vetoes + waiting = handed :=
    (congrArg (· + waiting) hEnded).trans hSum
  have hShown : desk.tally =
      ⟨.ofNat created, .ofNat updated, .ofNat upToDate, .ofNat failed, .ofNat waiting⟩ := hTally
  refine ⟨hVetted.given, hVetted.counted, hVetted.balanced, ?_, fun hSmall => ?_⟩
  · rw [hShown, ← hTotal]
    simp only [UInt64.ofNat_add]
  · have hExact : ∀ number, number ≤ handed → (UInt64.ofNat number).toNat = number :=
      fun number hLe => UInt64.toNat_ofNat_of_lt' (Nat.lt_of_le_of_lt hLe hSmall)
    rw [hShown]
    simp only
    rw [hExact created, hExact updated, hExact upToDate, hExact failed, hExact waiting]
    · exact hTotal
    all_goals omega

theorem accounted_vetoed :
    let names : LocalizedText := ⟨KeyMap.empty⟩
    let engine : Engine Family.category Nat :=
      { options :=
          { beforeCreate := some fun world _ => (none, world.withNotes (world.notes + 1)) }
        resolver := some World.askRemote }
    let second := Category.Draft.basic "second" names names
    let desk := (engine.follow (Run.start { remote := { ids := toString }, notes := 0 })
      [ .failLookup (.other "unreachable")
      , .sync [some ((Category.Draft.basic "child" names names).withParent "parent"), none]
      , .sync [some (Category.Draft.basic "first" names names)]
      , .sync [some second] ]).desk
    engine.options.Vetoes second ∧ desk.world.notes = 1 ∧ desk.vetoed = [second] ∧
      desk.skipped = [second] ∧
      desk.tally.created + desk.tally.updated + desk.tally.upToDate + desk.tally.failed +
        .ofNat desk.vetoes + desk.tally.waiting = 4 := by
  intro names engine second desk
  have hQuiet : engine.options.Quiet := by
    refine ⟨fun hook hHook world draft => ?_, fun hook hHook => ?_⟩
    · cases hHook
      exact ⟨rfl, rfl⟩
    · cases hHook
  have hRemembers : engine.Remembers id := by
    refine ⟨fun hook hHook world draft => ?_, fun hook hHook => ?_,
      fun resolver hSome world keys => ?_⟩
    · cases hHook
      rfl
    · cases hHook
    · cases hSome
      rfl
  have hVetoed : desk.vetoed = [second] := by decide +kernel
  obtain ⟨hGiven, hNoted, hSkipped, hSum, -⟩ := accounted hQuiet
    (fun resolver hSome world keys => by cases hSome; rfl)
    { remote := { ids := toString }, notes := 0 }
    [ .failLookup (.other "unreachable")
    , .sync [some ((Category.Draft.basic "child" names names).withParent "parent"), none]
    , .sync [some (Category.Draft.basic "first" names names)]
    , .sync [some second] ] (by decide +kernel)
  refine ⟨hGiven second (hVetoed ▸ List.mem_singleton_self _), ?_, hVetoed, hSkipped.trans hVetoed,
    hSum⟩
  exact (hNoted id hRemembers).trans (congrArg (fun vetoed => 0 + vetoed.length) hVetoed)

end Engine

end CatalogSync
