import CatalogSync.Proofs.Parking

/-!
# Drafts that are given up

If the records of the drafts that an available key concerns cannot be fetched, these drafts are given
up: they wait no longer and count as failed. Whom a key concerns is read off the index, and an entry
of the index outlives the park that made it, since parking a draft again for other keys does not take
the older entries away. So a failed fetch may hit a draft that has long been waiting for other keys.

How far this goes is told by the journal. Every entry goes back to a park of its draft, and an entry
that goes back to the latest one agrees with the staged record, because a round takes the available
keys out of the index and out of the records that it saves again.

## Main results

* `Engine.traced_kept`: entries go back to parks, those of the latest park to the staged record.
* `Engine.abandons_concerned`: a draft that is given up misses an available key, unless an earlier
  park of it did.
-/

namespace CatalogSync

variable {F : Family} {σ : Type}

/-! ## The parks under a key -/

/-- The record that an event parks under a key. -/
def Event.record? (key : String) : Event F → Option (Parked F)
  | .parked record => if key = record.key then some record else none
  | _ => none

/-- The records that were parked under a key, the earliest first. -/
def parksUnder (journal : List (Event F)) (key : String) : List (Parked F) :=
  journal.filterMap (Event.record? key)

theorem parksUnder_of_parksNone {before after : List (Event F)} {key : String}
    (hAppends : Appends Event.parksNone before after) :
    parksUnder after key = parksUnder before key := by
  refine hAppends.filterMap_eq fun event hNone => ?_
  cases event with
  | parked => cases hNone
  | _ => rfl

/-- One more park comes last under its key; under other keys nothing changes. -/
theorem parksUnder_parked {journal : List (Event F)} {record : Parked F} {key : String} :
    parksUnder (journal ++ [.parked record]) key =
      if key = record.key then parksUnder journal key ++ [record] else parksUnder journal key := by
  rw [parksUnder, List.filterMap_append]
  by_cases hKey : key = record.key
  · simp [Event.record?, hKey, parksUnder]
  · simp [Event.record?, hKey, parksUnder]

/-- The records that were parked under a key and replaced by a later park. -/
def superseded (journal : List (Event F)) (key : String) : List (Parked F) :=
  (parksUnder journal key).dropLast

/-- A park is the latest one under its key, or it is superseded. -/
theorem latest_or_superseded {journal : List (Event F)} {key : String} {record : Parked F}
    (hMem : record ∈ parksUnder journal key) :
    (parksUnder journal key).getLast? = some record ∨ record ∈ superseded journal key := by
  have hSome : parksUnder journal key ≠ [] := List.ne_nil_of_mem hMem
  rw [← List.dropLast_concat_getLast hSome] at hMem
  rcases List.mem_append.mp hMem with hEarlier | hLast
  · exact Or.inr hEarlier
  · rw [List.mem_singleton.mp hLast]
    exact Or.inl (List.getLast?_eq_some_getLast hSome)

namespace Engine

variable {engine : Engine F σ} {run after : Run F σ}

/-! ## The index and the journal -/

/-- What the latest park of a record missed is missed by the record itself, as far as the index still
has it. -/
def Heeds (waiting : Waiting) (journal : List (Event F)) (record : Parked F) : Prop :=
  ∀ last, (parksUnder journal record.key).getLast? = some last →
    ∀ reference ∈ last.missing, waiting.Awaits reference record.key → reference ∈ record.missing

/-- Every entry of the index goes back to a park, and the waiting drafts are backed by records that
heed the latest one. -/
structure Traced (engine : Engine F σ) (run : Run F σ) : Prop where
  entries : ∀ reference key, run.waiting.Awaits reference key →
    ∃ record ∈ parksUnder run.desk.journal key, reference ∈ record.missing
  backs : engine.area.Backs run.desk.world.shelf (Heeds run.waiting run.desk.journal)
    run.waiting.drafts

theorem Heeds.mono {waiting fewer : Waiting} {before after : List (Event F)} {record : Parked F}
    (hHeeds : Heeds waiting before record) (hParks : Appends Event.parksNone before after)
    (hFewer : ∀ reference key, fewer.Awaits reference key → waiting.Awaits reference key) :
    Heeds fewer after record := by
  intro last hLast reference hMissing hAwaits
  rw [parksUnder_of_parksNone hParks] at hLast
  exact hHeeds last hLast reference hMissing (hFewer reference record.key hAwaits)

/-- As long as nothing is parked, fewer entries and drafts stay traced while the records stay. -/
theorem Traced.mono (hTraced : engine.Traced run) (hParks : Desk.ParksNone run.desk after.desk)
    (hEntries : ∀ reference key, after.waiting.Awaits reference key →
      run.waiting.Awaits reference key)
    (hFewer : ∀ key ∈ after.waiting.drafts, key ∈ run.waiting.drafts)
    (hSame : ∀ key ∈ after.waiting.drafts,
      after.desk.world.shelf.get? engine.area.container key =
        run.desk.world.shelf.get? engine.area.container key) : engine.Traced after where
  entries reference key hAwaits := by
    rw [parksUnder_of_parksNone hParks]
    exact hTraced.entries reference key (hEntries reference key hAwaits)
  backs := hTraced.backs.mono hFewer hSame fun _ _ hHeeds => hHeeds.mono hParks hEntries

/-! ## What keeps them in agreement -/

/-- A draft is parked with what its record misses. -/
theorem park_traced {draft : F.Draft} {missing : KeySet} (hTraced : engine.Traced run)
    (hWaits : ¬ missing.isEmpty = true)
    (hRefers : ∀ reference ∈ missing, reference ∈ F.references draft) :
    engine.Traced (engine.park run draft missing) := by
  cases hFaults : run.desk.world.shelf.faults with
  | nil =>
      obtain ⟨hWaiting, -, -⟩ := @park_of_calm F σ engine run draft missing hFaults
      have hJournal := @park_journal_of_calm F σ engine run draft missing hFaults
      have hParks (key : String) : parksUnder (engine.park run draft missing).desk.journal key =
          if key = F.keyOf draft then
            parksUnder run.desk.journal key ++ [⟨F.keyOf draft, draft, missing⟩]
          else parksUnder run.desk.journal key := by
        rw [parksUnder_of_parksNone hJournal, parksUnder_parked]
      constructor
      · intro reference key hAwaits
        rw [hWaiting, Waiting.awaits_park] at hAwaits
        rw [hParks]
        rcases hAwaits with ⟨hMissing, rfl⟩ | hBefore
        · rw [if_pos rfl]
          exact ⟨_, List.mem_append_right _ (List.mem_cons_self ..), hMissing⟩
        · obtain ⟨record, hRecord, hMissing⟩ := hTraced.entries reference key hBefore
          refine ⟨record, ?_, hMissing⟩
          split
          · exact List.mem_append_left _ hRecord
          · exact hRecord
      · refine park_backs hTraced.backs hWaits hRefers (fun record hOther hHeeds => ?_) fun _ => ?_
        · intro last hLast reference hMissing hAwaits
          rw [hParks, if_neg (hOther hFaults)] at hLast
          rw [hWaiting, Waiting.awaits_park] at hAwaits
          have hBefore := hAwaits.resolve_left fun hNew => hOther hFaults hNew.2
          exact hHeeds last hLast reference hMissing hBefore
        · intro last hLast reference hMissing _
          rw [hParks, if_pos rfl, List.getLast?_concat] at hLast
          cases hLast
          exact hMissing
  | cons fault faults =>
      obtain ⟨hWaiting, hShelf, -⟩ := @park_of_fault F σ engine run draft missing _ _ hFaults
      refine hTraced.mono (park_parksNone_of_fault hFaults) (fun _ _ hAwaits => ?_)
        (fun key hKey => hWaiting ▸ hKey) fun key _ => ?_
      · rw [hWaiting] at hAwaits
        exact hAwaits
      · rw [hShelf]
        rfl

/-- Settling takes drafts and no entries. -/
theorem settle_traced {outcomes : List (String × Phase)} (hTraced : engine.Traced run) :
    engine.Traced (engine.settle run outcomes) := by
  refine hTraced.mono settle_parksNone (fun reference key hAwaits => ?_)
    (fun _ hKey => (mem_settle_drafts.mp hKey).1)
    fun _ hKey => settle_get?_ne fun hBoth => (mem_settle_drafts.mp hKey).2 hBoth.1
  unfold Waiting.Awaits at hAwaits ⊢
  rwa [settle_byMissing] at hAwaits

/-- A round takes the available keys out of the index and out of the records that it saves. -/
theorem releaseRound_traced {pending : KeySet} (hQuiet : engine.options.Quiet)
    (hTraced : engine.Traced run) (hSome : ¬ (run.waiting.waitingOn pending).isEmpty = true) :
    engine.Traced (engine.releaseRound run pending (run.waiting.waitingOn pending)).2 := by
  have hParks := @releaseRound_parksNone F σ engine run pending (run.waiting.waitingOn pending)
  have hEntries (reference key : String) :
      (engine.releaseRound run pending (run.waiting.waitingOn pending)).2.waiting.Awaits
        reference key → ¬ reference ∈ pending ∧ run.waiting.Awaits reference key := by
    intro hAwaits
    unfold Waiting.Awaits at hAwaits
    rw [releaseRound_byMissing] at hAwaits
    exact Waiting.awaits_forget.mp hAwaits
  rcases releaseRound_cases hSome hTraced.backs with
    ⟨shelf, cause, -, hSame, hRound⟩ | ⟨records, sorted, hKeys, hRecords, hSorts, hRound⟩
  · rw [hRound] at hParks hEntries ⊢
    refine hTraced.mono hParks (fun reference key hAwaits => (hEntries reference key hAwaits).2)
      (fun key hKey => (mem_abandon_drafts.mp hKey).1) fun key _ => ?_
    rw [abandon_world]
    exact hSame key
  · rw [hRound] at hParks hEntries ⊢
    refine ⟨fun reference key hAwaits => ?_, ?_⟩
    · rw [parksUnder_of_parksNone hParks]
      exact hTraced.entries reference key (hEntries reference key hAwaits).2
    · have hRest := round_backs
        (Desk.syncBatches engine.options sorted (engine.readyBatches pending records)).2
        hTraced.backs hKeys hRecords hSorts
        (fun record hHeeds last hLast reference hMissing hAwaits => ?_)
        fun record _ _ hHeeds => hHeeds.mono hParks fun reference key hAwaits =>
          (hEntries reference key hAwaits).2
      · refine hRest.mono (fun _ hKey => hKey) (fun key hKey => ?_) fun _ _ hHeeds => hHeeds
        rw [settle_get?_ne fun hBoth => (mem_settle_drafts.mp hKey).2 hBoth.1]
        show (Desk.syncBatches _ _ _).2.world.shelf.get? _ key = _
        rw [Desk.syncBatches_shelf hQuiet]
      · rw [parksUnder_of_parksNone hParks] at hLast
        obtain ⟨hUnavailable, hBefore⟩ := hEntries reference record.key hAwaits
        exact KeySet.mem_diff.mpr ⟨hHeeds last hLast reference hMissing hBefore, hUnavailable⟩

/-- Entries keep going back to parks, and those of the latest park to the staged record. -/
theorem traced_kept (hQuiet : engine.options.Quiet) : engine.Kept engine.Traced where
  desk hTraced hParks hSame :=
    hTraced.mono hParks (fun _ _ hAwaits => hAwaits) (fun _ hKey => hKey) fun _ _ => hSame ..
  park := park_traced
  settle := settle_traced
  round := releaseRound_traced hQuiet
  rest hTraced := hTraced.mono .refl (fun _ _ hAwaits => (Waiting.awaits_forget.mp hAwaits).2)
    (fun _ hKey => hKey) fun _ _ => rfl

/-! ## A failed fetch -/

/-- If the records of the concerned drafts cannot be fetched, these drafts wait no longer, count as
failed, and make no key available. -/
theorem releaseRound_of_error {available : KeySet} {cause : Cause}
    (hFetch : (engine.area.fetch run.desk.world.shelf (run.waiting.waitingOn available)).1 =
      .error cause) :
    (engine.releaseRound run available (run.waiting.waitingOn available)).1 = ∅ ∧
      (engine.releaseRound run available (run.waiting.waitingOn available)).2.waiting.drafts =
        run.waiting.drafts.diff (run.waiting.waitingOn available) ∧
      (engine.releaseRound run available (run.waiting.waitingOn available)).2.desk.tally.failed =
        run.desk.tally.failed + UInt64.ofNat (run.waiting.waitingOn available).size := by
  simp only [releaseRound, hFetch]
  exact ⟨trivial, rfl, rfl⟩

/--
A failed fetch hits the drafts concerned, and those that were. At any moment of a run, if the records
of the waiting drafts that the pending keys concern cannot be fetched, the drafts that leave the
waiting ones are as many as the tally counts as failed. Each of them has a staged record that can be
read, and either this record misses a pending key, or an earlier park of the draft did, which has
been superseded by a park for other keys.
-/
theorem abandons_concerned {resolver : Resolver F σ} (hQuiet : engine.options.Quiet)
    (hShelf : ∀ world keys, (resolver world keys).2.shelf = world.shelf) (world : World F σ)
    {before : Moment F σ} (hSteps : engine.Steps resolver ⟨Run.start world, ∅⟩ before)
    {cause : Cause}
    (hFetch : (engine.area.fetch before.run.desk.world.shelf
      (before.run.waiting.waitingOn before.pending)).1 = .error cause) :
    ∃ released : KeySet, ∃ after : Run F σ,
      engine.releaseRound before.run before.pending
        (before.run.waiting.waitingOn before.pending) = (∅, after) ∧
      (∀ key, key ∈ released ↔
        key ∈ before.run.waiting.drafts ∧ ¬ key ∈ after.waiting.drafts) ∧
      after.desk.tally.failed =
        before.run.desk.tally.failed + UInt64.ofNat released.size ∧
      ∀ key ∈ released, ∃ (value : Json) (record : Parked F),
        before.run.desk.world.shelf.get? F.stagingContainer key = some value ∧
          Parked.codec.decode value = some record ∧ record.key = key ∧
          ((∃ reference ∈ before.pending, reference ∈ record.missing) ∨
            ∃ earlier ∈ superseded before.run.desk.journal key,
              ∃ reference ∈ before.pending, reference ∈ earlier.missing) := by
  have hStart : engine.Traced (Run.start world) := by
    refine ⟨fun reference key hAwaits => ?_, fun _ hKey => absurd hKey KeySet.not_mem_empty⟩
    obtain ⟨drafts, hGet, -⟩ := hAwaits
    cases hGet
  have hTraced : engine.Traced before.run := (traced_kept hQuiet).steps hQuiet hShelf hSteps hStart
  obtain ⟨hNone, hDrafts, hFailed⟩ := releaseRound_of_error hFetch
  refine ⟨before.run.waiting.waitingOn before.pending, _, Prod.ext hNone rfl, fun key => ?_, hFailed,
    fun key hKey => ?_⟩
  · rw [hDrafts, KeySet.mem_diff]
    constructor
    · intro hKey
      exact ⟨(Waiting.mem_waitingOn.mp hKey).1, fun hStays => hStays.2 hKey⟩
    · rintro ⟨hWaits, hLeft⟩
      exact Decidable.byContradiction fun hOther => hLeft ⟨hWaits, hOther⟩
  · obtain ⟨hWaits, reference, hPending, hAwaits⟩ := Waiting.mem_waitingOn.mp hKey
    obtain ⟨record, rfl, hStages, hHeeds⟩ := hTraced.backs key hWaits
    refine ⟨_, record, hStages.stored, hStages.readable, rfl, ?_⟩
    obtain ⟨parked, hParked, hMissing⟩ := hTraced.entries reference record.key hAwaits
    rcases latest_or_superseded hParked with hLatest | hSuperseded
    · exact Or.inl ⟨reference, hPending, hHeeds parked hLatest reference hMissing hAwaits⟩
    · exact Or.inr ⟨parked, hSuperseded, reference, hPending, hMissing⟩

/-- A moment of a run: a draft was parked for one key and once more for another one, then the first
key was created, and the next call on the shelf is going to fail. -/
def parkedTwice : Moment Family.category Unit :=
  let names : LocalizedText := ⟨KeyMap.empty⟩
  let child := Category.Draft.basic "child" names names
  (deferring (F := Family.category)).openBatch World.askRemote
    ((deferring (F := Family.category)).follow (Run.start (.bare toString))
      [ .sync [some (child.withParent "first")]
      , .sync [some (child.withParent "second")]
      , .failStaging (.other "down") ])
    [some (Category.Draft.basic "first" names names)]

theorem parkedTwice_steps : (deferring (F := Family.category)).Steps World.askRemote
    ⟨Run.start (.bare toString), ∅⟩ parkedTwice := (follow_steps rfl).tail (.batch _ _)

theorem parkedTwice_fails :
    ((deferring (F := Family.category)).area.fetch parkedTwice.run.desk.world.shelf
      (parkedTwice.run.waiting.waitingOn parkedTwice.pending)).1 =
        .error (.remote (.other "down")) := by
  have hFaults : parkedTwice.run.desk.world.shelf.faults = [.other "down"] := by decide +kernel
  exact congrArg Prod.fst (Area.fetch_of_fault (by decide +kernel) hFaults)

theorem parkedTwice_leaves : "child" ∈ parkedTwice.run.waiting.drafts ∧
    ¬ "child" ∈ ((deferring (F := Family.category)).releaseRound parkedTwice.run parkedTwice.pending
      (parkedTwice.run.waiting.waitingOn parkedTwice.pending)).2.waiting.drafts := by
  decide +kernel

/-- The staged record misses the second key only. -/
theorem parkedTwice_misses {value : Json} {record : Parked Family.category}
    (hValue : parkedTwice.run.desk.world.shelf.get? Family.category.stagingContainer "child" =
      some value) (hRecord : Parked.codec.decode value = some record) :
    ¬ ∃ reference ∈ parkedTwice.pending, reference ∈ record.missing := by
  have hPending : parkedTwice.pending = KeySet.singleton "first" := by decide +kernel
  have hMissing : ((parkedTwice.run.desk.world.shelf.get? Family.category.stagingContainer
      "child").bind Parked.codec.decode).map (Parked.missing (F := Family.category)) =
        some (KeySet.singleton "second") := by decide +kernel
  rw [hValue, Option.bind_some, hRecord, Option.map_some, Option.some.injEq] at hMissing
  rw [hPending, hMissing]
  rintro ⟨reference, hFirst, hSecond⟩
  rw [KeySet.mem_singleton] at hFirst hSecond
  exact absurd (hFirst.symm.trans hSecond) (by decide)

theorem abandons_concerned_child :
    ((deferring (F := Family.category)).area.fetch parkedTwice.run.desk.world.shelf
      (parkedTwice.run.waiting.waitingOn parkedTwice.pending)).1 =
        .error (.remote (.other "down")) ∧
      ∃ released : KeySet, "child" ∈ released ∧
        ((deferring (F := Family.category)).releaseRound parkedTwice.run parkedTwice.pending
          (parkedTwice.run.waiting.waitingOn parkedTwice.pending)).2.desk.tally.failed =
            parkedTwice.run.desk.tally.failed + UInt64.ofNat released.size ∧
        ∃ earlier ∈ superseded parkedTwice.run.desk.journal "child",
          ∃ reference ∈ parkedTwice.pending, reference ∈ earlier.missing := by
  have hHookless : (deferring (F := Family.category)).options.Hookless := ⟨rfl, rfl⟩
  obtain ⟨released, after, hRound, hReleased, hFailed, hAll⟩ := abandons_concerned hHookless.quiet
    (fun _ _ => rfl) (.bare toString) parkedTwice_steps parkedTwice_fails
  have hLeaves := parkedTwice_leaves
  rw [hRound] at hLeaves
  have hChild : "child" ∈ released := (hReleased "child").mpr hLeaves
  obtain ⟨value, record, hValue, hRecord, -, hMisses⟩ := hAll "child" hChild
  refine ⟨parkedTwice_fails, released, hChild, ?_,
    hMisses.resolve_left (parkedTwice_misses hValue hRecord)⟩
  rw [hRound]
  exact hFailed

/-- The record of a draft that is given up need not miss any of the available keys. -/
theorem abandons_unconcerned :
    ¬ ∀ (before : Moment Family.category Unit) (cause : Cause),
      (deferring (F := Family.category)).Steps World.askRemote
        ⟨Run.start (.bare toString), ∅⟩ before →
      ((deferring (F := Family.category)).area.fetch before.run.desk.world.shelf
        (before.run.waiting.waitingOn before.pending)).1 = .error cause →
      ∀ key ∈ before.run.waiting.drafts,
        ¬ key ∈ ((deferring (F := Family.category)).releaseRound before.run before.pending
          (before.run.waiting.waitingOn before.pending)).2.waiting.drafts →
        ∃ (value : Json) (record : Parked Family.category),
          before.run.desk.world.shelf.get? Family.category.stagingContainer key = some value ∧
            Parked.codec.decode value = some record ∧ record.key = key ∧
            ∃ reference ∈ before.pending, reference ∈ record.missing := by
  intro hAll
  obtain ⟨value, record, hValue, hRecord, -, hMisses⟩ := hAll parkedTwice _ parkedTwice_steps
    parkedTwice_fails "child" parkedTwice_leaves.1 parkedTwice_leaves.2
  exact parkedTwice_misses hValue hRecord hMisses

end Engine

end CatalogSync
