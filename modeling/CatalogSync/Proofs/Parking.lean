import CatalogSync.Catalog.Families
import CatalogSync.Proofs.Rounds
import CatalogSync.Proofs.Working
import CatalogSync.Sync.Course

/-!
# What waits is the latest draft that was parked

A record outlives the wait of its draft when the draft fails, is dropped, or cannot be deleted or
fetched. What is left behind is an outdated draft under a key that may be parked again. The index
decides whether it counts: only a park adds a key to it, and the same park has replaced the record.
So the record of a waiting draft is always the one of the latest park, and a round takes its drafts
from the records of waiting drafts.

Runs are taken apart into the steps between which the index is at rest. A batch ends with the keys
that it created pending; rounds follow until no pending key concerns a waiting draft. The invariant
counts from a moment of the run, so that it tells of an outdated record, too: what was not waiting
then and waits now was parked in between.

## Main results

* `Desk.syncBatches_parksNone`, `Engine.releaseRound_parksNone`: only parking parks.
* `Engine.Kept.steps`: what parking, settling and rounds keep is kept by any number of steps.
* `Engine.follow_steps`: what an engine does is a sequence of steps.
* `Engine.releaseRound_tells`, `Engine.openBatch_tells`: on which drafts a step works.
* `Engine.releases_latest`: waiting drafts are the latest, and no other draft is released.
-/

namespace CatalogSync

variable {F : Family} {σ : Type}

/-! ## Parked drafts in the journal -/

namespace Event

/-- Whether an event parks no draft. -/
def parksNone : Event F → Bool
  | .parked _ => false
  | _ => true

/-- The draft that an event parks under a key. -/
def parked? (key : String) : Event F → Option F.Draft
  | .parked record => if key = record.key then some record.draft else none
  | _ => none

theorem parked?_of_parksNone {event : Event F} {key : String} (hNone : event.parksNone = true) :
    event.parked? key = none := by
  cases event with
  | parked => cases hNone
  | _ => rfl

end Event

/-- The draft of the most recent park under a key. -/
def lastParked (journal : List (Event F)) (key : String) : Option F.Draft :=
  (journal.filterMap (Event.parked? key)).getLast?

theorem lastParked_of_parksNone {before after : List (Event F)} {key : String}
    (hAppends : Appends Event.parksNone before after) :
    lastParked after key = lastParked before key := by
  rw [lastParked, hAppends.filterMap_eq fun _ => Event.parked?_of_parksNone]
  rfl

/-- One more park is the latest one under its key; under other keys nothing changes. -/
theorem lastParked_parked {journal : List (Event F)} {record : Parked F} {key : String} :
    lastParked (journal ++ [.parked record]) key =
      if key = record.key then some record.draft else lastParked journal key := by
  rw [lastParked, List.filterMap_append]
  by_cases hKey : key = record.key
  · simp [Event.parked?, hKey]
  · simp [Event.parked?, hKey, lastParked]

/-! ## Only parking parks -/

namespace Desk

variable {options : Options F σ} {desk before after : Desk F σ}

/-- One desk is the other after steps that parked no draft. -/
abbrev ParksNone (before after : Desk F σ) : Prop :=
  Appends Event.parksNone before.journal after.journal

/-- Syncing drafts parks none. -/
theorem Worked.parksNone (hWorked : Worked options before after) : ParksNone before after := by
  refine hWorked.journal.mono fun event hWork => ?_
  cases event with
  | parked => cases hWork
  | _ => rfl

theorem failMany_parksNone {message : String} {cause : Cause} {count : Nat} :
    ParksNone desk (desk.failMany options message cause count) := failMany_worked.parksNone

theorem screen_parksNone {drafts : List (Option F.Draft)} :
    ParksNone desk (screen options desk drafts).2 := screen_worked.parksNone

theorem syncBatch_parksNone {drafts : List F.Draft} :
    ParksNone desk (desk.syncBatch options drafts).2 := syncBatch_worked.parksNone

/-- Syncing batches parks no draft. -/
theorem syncBatches_parksNone {batches : List (List F.Draft)} :
    ParksNone desk (syncBatches options desk batches).2 := syncBatches_worked.parksNone

theorem adopt_parksNone {α : Type} {staged : Staged α} : ParksNone desk (desk.adopt staged) := by
  refine .many fun event hEvent => ?_
  obtain ⟨report, -, rfl⟩ := List.mem_map.mp hEvent
  rfl

end Desk

namespace Engine

variable {engine : Engine F σ} {run : Run F σ} {available concerned : KeySet}

theorem sortRecords_parksNone {desk : Desk F σ} {records : List (Parked F)} :
    Desk.ParksNone desk (engine.sortRecords available desk records).2 := by
  induction records generalizing desk with
  | nil => exact .refl
  | cons record rest ih =>
      by_cases hReady : record.isReady available = true
      · rw [sortRecords_of_ready hReady]
        exact ih
      · rw [sortRecords_of_waits hReady]
        exact Desk.adopt_parksNone.trans ih

theorem clearRecords_parksNone {desk : Desk F σ} {outcomes : List (String × Phase)} :
    Desk.ParksNone desk (engine.clearRecords desk outcomes) := by
  induction outcomes generalizing desk with
  | nil => exact .refl
  | cons outcome rest ih =>
      unfold clearRecords
      split
      · exact Desk.adopt_parksNone.trans ih
      · exact ih

theorem settle_parksNone {outcomes : List (String × Phase)} :
    Desk.ParksNone run.desk (engine.settle run outcomes).desk := by
  simp only [settle]
  split
  · exact .refl
  · exact @clearRecords_parksNone F σ engine
      (run.withWaiting (run.waiting.releaseEach outcomes).2).gauge.desk _

/-- A round parks no draft. -/
theorem releaseRound_parksNone :
    Desk.ParksNone run.desk (engine.releaseRound run available concerned).2.desk := by
  simp only [releaseRound]
  split
  · exact Desk.enterIf_journal rfl
  · rename_i records _
    have hSorted : Desk.ParksNone run.desk (engine.sortRecords available
        (run.desk.withShelf (engine.area.fetch run.desk.world.shelf concerned).2) records).2 :=
      @sortRecords_parksNone F σ engine available (run.desk.withShelf _) records
    exact (hSorted.trans Desk.syncBatches_parksNone).trans settle_parksNone

/-! ## The invariant -/

/-- The draft of a record is the latest one that some events parked under its key, unless the key
is one of those that were waiting before. -/
def Latest (older : KeySet) (added : List (Event F)) (record : Parked F) : Prop :=
  record.key ∈ older ∨ lastParked added record.key = some record.draft

/-- Since a moment at which the journal was `base` and the drafts `older` were waiting, every draft
that came to wait is backed by the record of its latest park. -/
def Current (engine : Engine F σ) (base : List (Event F)) (older : KeySet) (run : Run F σ) : Prop :=
  ∃ added, run.desk.journal = base ++ added ∧
    engine.area.Backs run.desk.world.shelf (Latest older added) run.waiting.drafts

variable {base : List (Event F)} {older : KeySet}

theorem Latest.append {added more : List (Event F)} {record : Parked F}
    (hLatest : Latest older added record) (hNone : ∀ event ∈ more, event.parksNone = true) :
    Latest older (added ++ more) record := by
  refine hLatest.imp_right fun hLast => ?_
  rw [lastParked_of_parksNone (.many hNone)]
  exact hLast

/-- As long as nothing is parked, fewer drafts stay current while their records stay. -/
theorem Current.mono {after : Run F σ} (hCurrent : engine.Current base older run)
    (hParks : Desk.ParksNone run.desk after.desk)
    (hFewer : ∀ key ∈ after.waiting.drafts, key ∈ run.waiting.drafts)
    (hSame : ∀ key ∈ after.waiting.drafts,
      after.desk.world.shelf.get? engine.area.container key =
        run.desk.world.shelf.get? engine.area.container key) :
    engine.Current base older after := by
  obtain ⟨added, hJournal, hBacks⟩ := hCurrent
  obtain ⟨more, hAfter, hNone⟩ := hParks
  refine ⟨added ++ more, ?_, hBacks.mono hFewer hSame fun _ _ hLatest => hLatest.append hNone⟩
  rw [hAfter, hJournal, List.append_assoc]

/-! ## Parking -/

variable {draft : F.Draft} {missing : KeySet}

/-- Without a scripted fault, a park enters its record into the journal and parks nothing else. -/
theorem park_journal_of_calm (hCalm : run.desk.world.shelf.faults = []) :
    Appends Event.parksNone (run.desk.journal ++ [.parked ⟨F.keyOf draft, draft, missing⟩])
      (engine.park run draft missing).desk.journal := by
  simp only [park, Area.save_of_calm hCalm]
  have hAdopted : run.desk.journal ++ [].map Event.failure = run.desk.journal :=
    List.append_nil _
  show Appends _ _ (Desk.warn _ _ _).journal
  refine Appends.trans ?_ (Desk.enterIf_journal rfl)
  show Appends _ _ (run.desk.journal ++ [].map Event.failure ++ _)
  rw [hAdopted]
  exact .refl

theorem park_parksNone_of_fault {fault : RemoteFault} {faults : List RemoteFault}
    (hFaults : run.desk.world.shelf.faults = fault :: faults) :
    Desk.ParksNone run.desk (engine.park run draft missing).desk := by
  simp only [park, Area.save_of_fault hFaults]
  exact Desk.adopt_parksNone

/-- A parked draft is the latest under its key, or the older one still waits. -/
theorem park_current (hCurrent : engine.Current base older run)
    (hWaits : ¬ missing.isEmpty = true)
    (hRefers : ∀ reference ∈ missing, reference ∈ F.references draft) :
    engine.Current base older (engine.park run draft missing) := by
  cases hFaults : run.desk.world.shelf.faults with
  | nil =>
      obtain ⟨added, hJournal, hBacks⟩ := hCurrent
      obtain ⟨more, hAfter, hNone⟩ := @park_journal_of_calm F σ engine run draft missing hFaults
      refine ⟨added ++ [.parked ⟨F.keyOf draft, draft, missing⟩] ++ more, ?_,
        park_backs hBacks hWaits hRefers (fun record hOther hLatest => ?_) fun _ => ?_⟩
      · rw [hAfter, hJournal]
        simp only [List.append_assoc]
      · refine Latest.append (hLatest.imp_right fun hLast => ?_) hNone
        rw [lastParked_parked, if_neg (hOther hFaults)]
        exact hLast
      · refine Latest.append (Or.inr ?_) hNone
        rw [lastParked_parked, if_pos rfl]
  | cons fault faults =>
      obtain ⟨hWaiting, hShelf, -⟩ := @park_of_fault F σ engine run draft missing _ _ hFaults
      refine hCurrent.mono (park_parksNone_of_fault hFaults) (fun key hKey => hWaiting ▸ hKey)
        fun key _ => ?_
      rw [hShelf]
      rfl

/-! ## Settling and rounds -/

theorem settle_current {outcomes : List (String × Phase)}
    (hCurrent : engine.Current base older run) :
    engine.Current base older (engine.settle run outcomes) :=
  hCurrent.mono settle_parksNone (fun _ hKey => (mem_settle_drafts.mp hKey).1)
    fun _ hKey => settle_get?_ne fun hBoth => (mem_settle_drafts.mp hKey).2 hBoth.1

/-- A round leaves the drafts that still wait with the records of their latest parks. -/
theorem releaseRound_current (hQuiet : engine.options.Quiet)
    (hSome : ¬ (run.waiting.waitingOn available).isEmpty = true)
    (hCurrent : engine.Current base older run) :
    engine.Current base older
      (engine.releaseRound run available (run.waiting.waitingOn available)).2 := by
  have hParks := @releaseRound_parksNone F σ engine run available (run.waiting.waitingOn available)
  obtain ⟨added, hJournal, hBacks⟩ := hCurrent
  rcases releaseRound_cases hSome hBacks with
    ⟨shelf, cause, -, hSame, hRound⟩ | ⟨records, sorted, hKeys, hRecords, hSorts, hRound⟩
  · rw [hRound] at hParks ⊢
    refine Current.mono ⟨added, hJournal, hBacks⟩ hParks
      (fun key hKey => (mem_abandon_drafts.mp hKey).1) fun key _ => ?_
    rw [abandon_world]
    exact hSame key
  · obtain ⟨more, hAfter, hNone⟩ := hParks
    rw [hRound] at hAfter ⊢
    refine ⟨added ++ more, by rw [hAfter, hJournal, List.append_assoc], ?_⟩
    have hRest := round_backs
      (Desk.syncBatches engine.options sorted (engine.readyBatches available records)).2
      hBacks hKeys hRecords hSorts (fun _ hLatest => Latest.append hLatest hNone)
      fun _ _ _ hLatest => Latest.append hLatest hNone
    refine hRest.mono (fun _ hKey => hKey) (fun key hKey => ?_) fun _ _ hLatest => hLatest
    rw [settle_get?_ne fun hBoth => (mem_settle_drafts.mp hKey).2 hBoth.1]
    show (Desk.syncBatches _ _ _).2.world.shelf.get? _ key = _
    rw [Desk.syncBatches_shelf hQuiet]

/-! ## Steps of a run -/

/-- A run between two steps. The pending keys were created and no waiting draft was told of them. -/
structure Moment (F : Family) (σ : Type) where
  run : Run F σ
  pending : KeySet

/-- What is done for a batch before waiting drafts are released. -/
def openBatch (engine : Engine F σ) (resolver : Resolver F σ) (run : Run F σ)
    (batch : List (Option F.Draft)) : Moment F σ :=
  let screened := Desk.screen engine.options run.desk batch
  let chosen := engine.ready resolver (run.withDesk screened.2) screened.1
  let synced := chosen.2.desk.syncBatch engine.options chosen.1
  ⟨engine.settle (chosen.2.withDesk synced.2) synced.1, createdKeys synced.1⟩

/-- The steps of an engine with a resolver. With no key pending, something may be scripted or a
batch begins; rounds follow until the pending keys concern no draft. -/
inductive Step (engine : Engine F σ) (resolver : Resolver F σ) : Moment F σ → Moment F σ → Prop
  | script (run : Run F σ) (errand : Errand F) : Step engine resolver ⟨run, ∅⟩
      ⟨run.withDesk (run.desk.withWorld (run.desk.world.script errand)), ∅⟩
  | batch (run : Run F σ) (drafts : List (Option F.Draft)) : Step engine resolver ⟨run, ∅⟩
      (engine.openBatch resolver run drafts)
  | round (run : Run F σ) (pending : KeySet)
      (hSome : ¬ (run.waiting.waitingOn pending).isEmpty = true) : Step engine resolver
        ⟨run, pending⟩ ⟨(engine.releaseRound run pending (run.waiting.waitingOn pending)).2,
          (engine.releaseRound run pending (run.waiting.waitingOn pending)).1⟩
  | rest (run : Run F σ) (pending : KeySet)
      (hNone : (run.waiting.waitingOn pending).isEmpty = true) : Step engine resolver
        ⟨run, pending⟩ ⟨run.withWaiting (run.waiting.forget pending), ∅⟩

/-- Any number of steps. -/
abbrev Steps (engine : Engine F σ) (resolver : Resolver F σ) : Moment F σ → Moment F σ → Prop :=
  Relation.ReflTransGen (Step engine resolver)

variable {resolver : Resolver F σ} {first before after : Moment F σ}

/-- A whole release is a sequence of rounds. -/
theorem release_steps (hSteps : engine.Steps resolver first ⟨run, available⟩) :
    engine.Steps resolver first ⟨engine.release run available, ∅⟩ :=
  release_induct (P := fun pending later => engine.Steps resolver first ⟨later, pending⟩)
    (fun pending later hSome hBefore => hBefore.tail (.round later pending hSome))
    (fun pending later hNone hBefore => hBefore.tail (.rest later pending hNone)) hSteps

theorem syncBatch_steps (hResolver : engine.resolver = some resolver)
    {batch : List (Option F.Draft)} :
    engine.Steps resolver ⟨run, ∅⟩ ⟨engine.syncBatch run batch, ∅⟩ := by
  simp only [syncBatch, hResolver]
  exact release_steps (.single (.batch run batch))

theorem syncBatches_steps (hResolver : engine.resolver = some resolver)
    {batches : List (List (Option F.Draft))} :
    engine.Steps resolver ⟨run, ∅⟩ ⟨batches.foldl engine.syncBatch run, ∅⟩ := by
  induction batches generalizing run with
  | nil => exact .refl
  | cons batch rest ih => exact (syncBatch_steps hResolver).trans ih

/-- Whatever an engine is used for is a sequence of steps. -/
theorem follow_steps (hResolver : engine.resolver = some resolver) {errands : List (Errand F)} :
    engine.Steps resolver ⟨run, ∅⟩ ⟨engine.follow run errands, ∅⟩ := by
  induction errands generalizing run with
  | nil => exact .refl
  | cons errand rest ih =>
      have hFirst : engine.Steps resolver ⟨run, ∅⟩ ⟨engine.perform run errand, ∅⟩ := by
        rcases @perform_cases F σ engine run errand with hSync | ⟨-, hScript⟩
        · rw [hSync]
          exact syncBatches_steps hResolver
        · rw [hScript]
          exact .single (.script run errand)
      exact hFirst.trans ih

/-- What is said of a run is kept by everything that happens between two moments: reports and what
leaves the records alone, parking, settling, and rounds. -/
structure Kept (engine : Engine F σ) (P : Run F σ → Prop) : Prop where
  desk : ∀ {run desk}, P run → Desk.ParksNone run.desk desk →
    (∀ name key, desk.world.shelf.get? name key = run.desk.world.shelf.get? name key) →
      P (run.withDesk desk)
  park : ∀ {run} {draft : F.Draft} {missing : KeySet}, P run → ¬ missing.isEmpty = true →
    (∀ reference ∈ missing, reference ∈ F.references draft) → P (engine.park run draft missing)
  settle : ∀ {run outcomes}, P run → P (engine.settle run outcomes)
  round : ∀ {run pending}, P run → ¬ (run.waiting.waitingOn pending).isEmpty = true →
    P (engine.releaseRound run pending (run.waiting.waitingOn pending)).2
  rest : ∀ {run pending}, P run → P (run.withWaiting (run.waiting.forget pending))

variable {P : Run F σ → Prop}

/-- It is kept while a batch is made ready. -/
theorem Kept.ready {drafts : List F.Draft} (hKept : engine.Kept P)
    (hShelf : ∀ world keys, (resolver world keys).2.shelf = world.shelf) (hRun : P run) :
    P (engine.ready resolver run drafts).2 := by
  have hParked (existing : KeySet) (run : Run F σ) (hRun : P run) :
      P (engine.parkIncomplete existing run drafts).2 := by
    induction drafts generalizing run with
    | nil => exact hRun
    | cons draft rest ih =>
        simp only [parkIncomplete]
        split
        · exact ih run hRun
        · rename_i hSome
          exact ih _ (hKept.park hRun hSome fun _ hMem => (KeySet.mem_diff.mp hMem).1)
  simp only [Engine.ready]
  split
  · exact hRun
  · have hAsked : P (run.withDesk
        ((run.desk.enter (.resolving (F.referencesOf drafts))).withWorld
          (resolver run.desk.world (F.referencesOf drafts)).2)) := by
      refine hKept.desk hRun (.single rfl) fun name key => ?_
      exact congrArg (Shelf.get? · name key) (hShelf run.desk.world _)
    generalize (run.desk.enter (.resolving (F.referencesOf drafts))).withWorld
      (resolver run.desk.world (F.referencesOf drafts)).2 = asked at hAsked ⊢
    split
    · exact hParked _ _ hAsked
    · refine @Kept.desk F σ engine P hKept (run.withDesk asked) _ hAsked Desk.failMany_parksNone
        fun name key => ?_
      rw [Desk.failMany_world]
      rfl

/-- It is kept by every step. -/
theorem Kept.step (hKept : engine.Kept P) (hQuiet : engine.options.Quiet)
    (hShelf : ∀ world keys, (resolver world keys).2.shelf = world.shelf)
    (hStep : engine.Step resolver before after) (hRun : P before.run) : P after.run := by
  cases hStep with
  | script run errand =>
      refine hKept.desk hRun .refl fun name key => ?_
      obtain ⟨-, -, hContainers⟩ := @World.script_keeps F σ run.desk.world errand
      show (run.desk.world.script errand).shelf.get? _ key = _
      unfold Shelf.get? Shelf.container
      rw [hContainers]
  | batch run drafts =>
      have hScreened : P (run.withDesk (Desk.screen engine.options run.desk drafts).2) := by
        refine hKept.desk hRun Desk.screen_parksNone fun name key => ?_
        rw [Desk.screen_world]
      refine hKept.settle (hKept.desk (hKept.ready hShelf hScreened) Desk.syncBatch_parksNone ?_)
      intro name key
      rw [Desk.syncBatch_shelf hQuiet]
  | round run pending hSome => exact hKept.round hRun hSome
  | rest run pending => exact hKept.rest hRun

/-- It is kept by any number of steps. -/
theorem Kept.steps (hKept : engine.Kept P) (hQuiet : engine.options.Quiet)
    (hShelf : ∀ world keys, (resolver world keys).2.shelf = world.shelf)
    (hSteps : engine.Steps resolver before after) (hRun : P before.run) : P after.run :=
  keeps_of_reflTransGen (P := fun moment => P moment.run) hSteps
    (fun _ _ hStep hBefore => hKept.step hQuiet hShelf hStep hBefore) hRun

/-- The waiting drafts stay current. -/
theorem current_kept (hQuiet : engine.options.Quiet) : engine.Kept (engine.Current base older) where
  desk hCurrent hParks hSame := hCurrent.mono hParks (fun _ hKey => hKey) fun _ _ => hSame ..
  park hCurrent := park_current hCurrent
  settle := settle_current
  round hCurrent hSome := releaseRound_current hQuiet hSome hCurrent
  rest hCurrent := hCurrent.mono .refl (fun _ hKey => hKey) fun _ _ => rfl

/-- Any number of steps keep the waiting drafts current. -/
theorem Current.steps (hQuiet : engine.options.Quiet)
    (hShelf : ∀ world keys, (resolver world keys).2.shelf = world.shelf)
    (hSteps : engine.Steps resolver before after)
    (hCurrent : engine.Current base older before.run) : engine.Current base older after.run :=
  (current_kept hQuiet).steps hQuiet hShelf hSteps hCurrent

/-! ## What is released -/

/-- The drafts that a round for available keys syncs. -/
def releasing (engine : Engine F σ) (run : Run F σ) (available : KeySet) : List F.Draft :=
  match (engine.area.fetch run.desk.world.shelf (run.waiting.waitingOn available)).1 with
  | .error _ => []
  | .ok records => (engine.sortRecords available run.desk records).1

/-- A round syncs the drafts of the records that miss nothing any more. -/
theorem releasing_of_fetched {records : List (Parked F)}
    (hFetch : (engine.area.fetch run.desk.world.shelf (run.waiting.waitingOn available)).1 =
      .ok records) :
    engine.releasing run available =
      (records.filter (Parked.isReady available)).map (·.draft) := by
  simp only [Engine.releasing, hFetch, sortRecords_drafts]

/-- A released draft was waiting, and it is the latest one that was parked under its key since a
moment at which it was not waiting. -/
theorem Current.releasing (hCurrent : engine.Current base older run)
    (hDraft : draft ∈ engine.releasing run available) :
    F.keyOf draft ∈ run.waiting.drafts ∧ ∃ added, run.desk.journal = base ++ added ∧
      (F.keyOf draft ∈ older ∨ lastParked added (F.keyOf draft) = some draft) := by
  obtain ⟨added, hJournal, hBacks⟩ := hCurrent
  have hConcerned : engine.area.Backs run.desk.world.shelf (Latest older added)
      (run.waiting.waitingOn available) :=
    hBacks.mono (fun _ hKey => (Waiting.mem_waitingOn.mp hKey).1) (fun _ _ => rfl)
      fun _ _ hLatest => hLatest
  by_cases hNone : (run.waiting.waitingOn available).isEmpty = true
  · rw [releasing_of_fetched (by rw [Area.fetch, if_pos hNone])] at hDraft
    exact absurd hDraft List.not_mem_nil
  · rcases Area.fetch_of_backs hNone hConcerned with
      ⟨fault, faults, -, hFetch⟩ | ⟨-, -, records, hFetch, hKeys, hAll⟩
    · simp only [Engine.releasing, hFetch] at hDraft
      exact absurd hDraft List.not_mem_nil
    · rw [releasing_of_fetched hFetch] at hDraft
      obtain ⟨record, hRecord, rfl⟩ := List.mem_map.mp hDraft
      obtain ⟨hStages, hLatest⟩ := hAll record (List.mem_filter.mp hRecord).1
      have hWaits : record.key ∈ run.waiting.waitingOn available := by
        have hMem := List.mem_map_of_mem (f := Parked.key) (List.mem_filter.mp hRecord).1
        rw [hKeys] at hMem
        exact hMem
      rw [hStages.key]
      exact ⟨(Waiting.mem_waitingOn.mp hWaits).1, added, hJournal, hLatest⟩

/-- At any moment the waiting drafts are current since then. -/
theorem Current.start (hCurrent : engine.Current base older run) :
    engine.Current run.desk.journal run.waiting.drafts run := by
  obtain ⟨added, -, hBacks⟩ := hCurrent
  refine ⟨[], (List.append_nil _).symm, hBacks.mono (fun _ hKey => hKey) (fun _ _ => rfl) ?_⟩
  exact fun _ hWaits _ => Or.inl hWaits

/-! ## What is worked on -/

/-- A round works on no other drafts than those that it releases. -/
theorem releaseRound_tells : Desk.Tells (· ∈ engine.releasing run available) run.desk
    (engine.releaseRound run available (run.waiting.waitingOn available)).2.desk := by
  simp only [releaseRound]
  split
  · rename_i cause hFetch
    exact .of_idle (abandon_idle engine _ _ cause).journal
  · rename_i records hFetch
    rw [releasing_of_fetched hFetch]
    have hSorted : Desk.Tells (· ∈ (records.filter (Parked.isReady available)).map (·.draft))
        run.desk (engine.sortRecords available (run.desk.withShelf
          (engine.area.fetch run.desk.world.shelf (run.waiting.waitingOn available)).2)
          records).2 := by
      refine .of_idle ?_
      exact (@sortRecords_idle F σ engine available (run.desk.withShelf _) records).journal
    refine (hSorted.trans (Desk.syncBatches_tells fun draft hDraft => ?_)).trans
      (.of_idle (settle_idle engine _ _).journal)
    rw [Options.flatten_batches, sortRecords_drafts] at hDraft
    exact hDraft

/-- While a batch is made ready no draft is worked on. -/
theorem ready_tells {known : F.Draft → Prop} {drafts : List F.Draft} :
    Desk.Tells known run.desk (engine.ready resolver run drafts).2.desk := by
  have hAsked : Desk.Tells known run.desk
      ((run.desk.enter (.resolving (F.referencesOf drafts))).withWorld
        (resolver run.desk.world (F.referencesOf drafts)).2) := .of_idle (.single rfl)
  simp only [ready]
  split
  · exact .refl
  · split
    · refine hAsked.trans (.of_idle ?_)
      exact (@parkIncomplete_idle F σ engine (run.withDesk _) _ drafts).journal
    · exact hAsked.trans (.of_idle Desk.failMany_idle.journal)

/-- A batch that begins works on no other drafts than those that are handed in. -/
theorem openBatch_tells {batch : List (Option F.Draft)} : Desk.Tells (some · ∈ batch) run.desk
    (engine.openBatch resolver run batch).run.desk := by
  have hScreened : Desk.Tells (some · ∈ batch) run.desk
      (Desk.screen engine.options run.desk batch).2 := .of_idle Desk.screen_idle.journal
  have hReady := hScreened.trans (@ready_tells F σ engine (run.withDesk _) resolver _
    (Desk.screen engine.options run.desk batch).1)
  refine (hReady.trans (Desk.syncBatch_tells fun draft hDraft => ?_)).trans
    (.of_idle (settle_idle engine _ _).journal)
  exact (Desk.valid_of_mem_screen (ready_sublist.mem hDraft)).1

/--
What waits is the latest draft that was parked, and nothing else is released. A run is a sequence of
steps. Between any two batches, every waiting key has a record that can be read, with that key and a
draft of that key, which is the draft of the latest park under it. At any moment of a run, the
drafts that a round releases, and all those that the events are about that the round adds to the
journal, were waiting, and each is the latest one parked under its key. If a key was not waiting at
some earlier moment, the draft was parked since then: a record that was left behind is never synced,
but replaced when its key is parked again. The only other step that works on drafts is the beginning
of a batch, and the events that it adds are about the drafts that are handed in.
-/
theorem releases_latest (hQuiet : engine.options.Quiet)
    (hResolver : engine.resolver = some resolver)
    (hShelf : ∀ world keys, (resolver world keys).2.shelf = world.shelf) (world : World F σ) :
    (∀ (errands : List (Errand F)) (drafts : List (Option F.Draft)) (count : Nat),
      let run := ((engine.options.batches drafts).take count).foldl engine.syncBatch
        (engine.follow (Run.start world) errands)
      engine.Steps resolver ⟨Run.start world, ∅⟩ ⟨run, ∅⟩ ∧
        ∀ key ∈ run.waiting.drafts, ∃ (value : Json) (record : Parked F),
          run.desk.world.shelf.get? F.stagingContainer key = some value ∧
            Parked.codec.decode value = some record ∧ record.key = key ∧
            F.keyOf record.draft = key ∧
            lastParked run.desk.journal key = some record.draft) ∧
    (∀ later, engine.Steps resolver ⟨Run.start world, ∅⟩ later →
      let round := (engine.releaseRound later.run later.pending
        (later.run.waiting.waitingOn later.pending)).2
      ∃ added, round.desk.journal = later.run.desk.journal ++ added ∧
        ∀ draft, draft ∈ engine.releasing later.run later.pending ∨
            draft ∈ added.filterMap Event.subject? →
          F.keyOf draft ∈ later.run.waiting.drafts ∧
            lastParked later.run.desk.journal (F.keyOf draft) = some draft ∧
            ∀ earlier, engine.Steps resolver ⟨Run.start world, ∅⟩ earlier →
              engine.Steps resolver earlier later →
                ¬ F.keyOf draft ∈ earlier.run.waiting.drafts →
                  ∃ since, later.run.desk.journal = earlier.run.desk.journal ++ since ∧
                    lastParked since (F.keyOf draft) = some draft) ∧
    (∀ (run : Run F σ) (batch : List (Option F.Draft)),
      ∃ added, (engine.openBatch resolver run batch).run.desk.journal = run.desk.journal ++ added ∧
        ∀ draft ∈ added.filterMap Event.subject?, some draft ∈ batch) := by
  have hStart : engine.Current [] ∅ (Run.start world) :=
    ⟨[], rfl, fun _ hKey => absurd hKey KeySet.not_mem_empty⟩
  have hAlways : ∀ later, engine.Steps resolver ⟨Run.start world, ∅⟩ later →
      engine.Current [] ∅ later.run := fun _ hSteps => hStart.steps hQuiet hShelf hSteps
  refine ⟨fun errands drafts count => ?_, fun later hSteps => ?_, fun _ _ => openBatch_tells⟩
  · intro run
    have hSteps : engine.Steps resolver ⟨Run.start world, ∅⟩ ⟨run, ∅⟩ :=
      (follow_steps hResolver).trans (syncBatches_steps hResolver)
    refine ⟨hSteps, fun key hKey => ?_⟩
    obtain ⟨added, hJournal, hBacks⟩ := hAlways ⟨run, ∅⟩ hSteps
    obtain ⟨record, rfl, hStages, hLatest⟩ := hBacks key hKey
    refine ⟨_, record, hStages.stored, hStages.readable, rfl, hStages.key, ?_⟩
    rw [hJournal]
    exact hLatest.resolve_left KeySet.not_mem_empty
  · obtain ⟨added, hRound, hTold⟩ := @releaseRound_tells F σ engine later.run later.pending
    refine ⟨added, hRound, fun draft hWorked => ?_⟩
    have hDraft : draft ∈ engine.releasing later.run later.pending := hWorked.elim id (hTold draft)
    obtain ⟨hWaits, parked, hJournal, hLatest⟩ := (hAlways later hSteps).releasing hDraft
    refine ⟨hWaits, ?_, fun earlier hEarlier hSince hAbsent => ?_⟩
    · rw [hJournal]
      exact hLatest.resolve_left KeySet.not_mem_empty
    · have hCurrent := (hAlways earlier hEarlier).start.steps hQuiet hShelf hSince
      obtain ⟨-, since, hParked, hLast⟩ := hCurrent.releasing hDraft
      exact ⟨since, hParked, hLast.resolve_left hAbsent⟩

theorem releases_latest_child :
    let names : LocalizedText := ⟨KeyMap.empty⟩
    let child (name parent : String) : Category.Draft :=
      (Category.Draft.basic "child" (.of "en" name) names).withParent parent
    let engine := deferring (F := Family.category)
    let earlier := engine.follow (Run.start (.bare toString))
      [ .sync [some (child "Old" "first")]
      , .failStaging (.other "unreachable")
      , .sync [some (Category.Draft.basic "first" names names)] ]
    let parked := engine.follow earlier [.sync [some (child "New" "second")]]
    let later := engine.openBatch World.askRemote parked
      [some (Category.Draft.basic "second" names names)]
    let round := (engine.releaseRound later.run later.pending
      (later.run.waiting.waitingOn later.pending)).2
    (earlier.desk.world.shelf.get? Family.category.stagingContainer "child").isSome ∧
      ¬ "child" ∈ earlier.waiting.drafts ∧
      ∃ added, round.desk.journal = later.run.desk.journal ++ added ∧
        child "New" "second" ∈ added.filterMap Event.subject? ∧
        lastParked later.run.desk.journal "child" = some (child "New" "second") ∧
        ∃ since, later.run.desk.journal = earlier.desk.journal ++ since ∧
          lastParked since "child" = some (child "New" "second") := by
  intro names child engine earlier parked later round
  have hAbsent : ¬ "child" ∈ earlier.waiting.drafts := by decide +kernel
  have hHookless : engine.options.Hookless := ⟨rfl, rfl⟩
  have hEarlier : engine.Steps World.askRemote ⟨Run.start (.bare toString), ∅⟩ ⟨earlier, ∅⟩ :=
    follow_steps rfl
  have hLater : engine.Steps World.askRemote ⟨earlier, ∅⟩ later :=
    (follow_steps rfl).tail (.batch parked _)
  obtain ⟨-, hRounds, -⟩ := @releases_latest Family.category Unit engine World.askRemote
    hHookless.quiet rfl (fun _ _ => rfl) (.bare toString)
  obtain ⟨added, hRound, hLatest⟩ := hRounds later (hEarlier.trans hLater)
  have hSubject : child "New" "second" ∈ added.filterMap Event.subject? := by
    have hAdded : added = round.desk.journal.drop later.run.desk.journal.length := by
      rw [hRound, List.drop_left]
    rw [hAdded]
    decide +kernel
  obtain ⟨-, hLast, hSince⟩ := hLatest _ (Or.inr hSubject)
  exact ⟨by decide +kernel, hAbsent, added, hRound, hSubject, hLast,
    hSince ⟨earlier, ∅⟩ hEarlier hLater hAbsent⟩

end Engine

end CatalogSync
