import CatalogSync.Proofs.Processing
import CatalogSync.Remote.History

/-!
# What working through batches does to a desk

Besides processing drafts an engine only looks, reports, counts and stages: it is idle as far as the
resources are concerned. A whole piece of work alternates idle steps with processed drafts, each
of which is processed only when it is fit: it is one of the drafts known to be handed in, and all
resources that it refers to exist. `syncBatches_works` shows this for batches of drafts that are
fit when the first batch begins, because no work takes a key away.

## Main results

* `Desk.syncBatches_works`: batches of fit drafts are worked through by fit steps.
* `Desk.syncBatches_keys`: the keys of the remote grow by the keys of the created drafts.
* `Desk.syncBatches_shelf`: the shelf is left alone.
* `Desk.syncBatches_tells`: no other drafts are worked on.
-/

namespace CatalogSync

/-- One list is the other with some items added at the end, all of which pass a test. -/
def Appends {α : Type} (test : α → Bool) (before after : List α) : Prop :=
  ∃ added, after = before ++ added ∧ ∀ item ∈ added, test item = true

namespace Appends

variable {α : Type} {test : α → Bool} {before middle after : List α}

theorem refl : Appends test before before := ⟨[], (List.append_nil _).symm, by simp⟩

theorem trans (hFirst : Appends test before middle) (hLast : Appends test middle after) :
    Appends test before after := by
  obtain ⟨first, rfl, hFirst⟩ := hFirst
  obtain ⟨last, rfl, hLast⟩ := hLast
  refine ⟨first ++ last, List.append_assoc .., fun item hItem => ?_⟩
  rcases List.mem_append.mp hItem with hItem | hItem
  · exact hFirst item hItem
  · exact hLast item hItem

theorem single {item : α} (hItem : test item = true) : Appends test before (before ++ [item]) :=
  ⟨[item], rfl, fun _ hOther => List.mem_singleton.mp hOther ▸ hItem⟩

theorem many {items : List α} (hItems : ∀ item ∈ items, test item = true) :
    Appends test before (before ++ items) := ⟨items, rfl, hItems⟩

/-- Items that pass a test pass a weaker one. -/
theorem mono {other : α → Bool} (hAppends : Appends test before after)
    (hWeaker : ∀ item, test item = true → other item = true) : Appends other before after := by
  obtain ⟨added, hAfter, hAdded⟩ := hAppends
  exact ⟨added, hAfter, fun item hItem => hWeaker item (hAdded item hItem)⟩

/-- What cannot be read from the added items is read from the longer list as before. -/
theorem filterMap_eq {β : Type} {read : α → Option β} (hAppends : Appends test before after)
    (hRead : ∀ item, test item = true → read item = none) :
    after.filterMap read = before.filterMap read := by
  obtain ⟨added, rfl, hAdded⟩ := hAppends
  have hNone : added.filterMap read = [] :=
    List.filterMap_eq_nil_iff.mpr fun item hItem => hRead item (hAdded item hItem)
  rw [List.filterMap_append, hNone, List.append_nil]

end Appends

variable {F : Family} {σ : Type}

/-! ## Whom an event is about -/

namespace Event

/-- The draft that is worked on while an event happens: a hook is asked about it, it is submitted,
or it ends. -/
def subject? : Event F → Option F.Draft
  | .creating draft _ | .updating draft _ _ | .submitting draft _ | .ended draft _ _ => some draft
  | _ => none

/-- Whether no draft is worked on while an event happens. -/
def isIdle (event : Event F) : Bool := event.subject?.isNone

theorem isNotice_of_isIdle {event : Event F} (hIdle : event.isIdle = true) :
    event.isNotice = true := by
  cases event with
  | submitting | ended => cases hIdle
  | _ => rfl

end Event

namespace Desk

/-! ## Idle steps -/

/-- A desk after steps that asked no hook, submitted nothing and ended no draft. -/
structure Idle (before after : Desk F σ) : Prop where
  resources : after.world.remote.resources = before.world.remote.resources
  log : Appends Call.isQuery before.world.remote.log after.world.remote.log
  journal : Appends Event.isIdle before.journal after.journal

theorem Idle.refl {desk : Desk F σ} : Idle desk desk := ⟨rfl, .refl, .refl⟩

theorem Idle.trans {before middle after : Desk F σ} (hFirst : Idle before middle)
    (hLast : Idle middle after) : Idle before after :=
  ⟨hLast.resources.trans hFirst.resources, hFirst.log.trans hLast.log,
    hFirst.journal.trans hLast.journal⟩

/-- Only the journal, the shelf, the tally or what hooks remember has changed. -/
theorem Idle.of_remote {before after : Desk F σ}
    (hRemote : after.world.remote = before.world.remote)
    (hJournal : Appends Event.isIdle before.journal after.journal) : Idle before after :=
  ⟨congrArg Remote.resources hRemote, hRemote ▸ .refl, hJournal⟩

/-- Idle steps end no draft. -/
theorem Idle.of_ended {before after : Desk F σ} (hIdle : Idle before after) {draft : F.Draft}
    {phase : Phase} {remote : Remote F}
    (hEvent : Event.ended draft phase remote ∈ after.journal) :
    Event.ended draft phase remote ∈ before.journal := by
  obtain ⟨notices, hJournal, hNotices⟩ := hIdle.journal
  rw [hJournal, List.mem_append] at hEvent
  exact hEvent.resolve_right fun hNotice => by cases hNotices _ hNotice

variable {options : Options F σ} {desk : Desk F σ}

theorem enterIf_journal {test : Event F → Bool} {asked : Bool} {event : Event F}
    (hTest : test event = true) :
    Appends test desk.journal (desk.enterIf asked event).journal := by
  unfold enterIf
  split
  · exact .single hTest
  · exact .refl

theorem failMany_idle {message : String} {cause : Cause} {count : Nat} :
    Idle desk (desk.failMany options message cause count) :=
  .of_remote (congrArg World.remote failMany_world) (enterIf_journal rfl)

theorem screen_world {drafts : List (Option F.Draft)} :
    (screen options desk drafts).2.world = desk.world := by
  induction drafts generalizing desk with
  | nil => rfl
  | cons draft rest ih =>
      cases draft with
      | none => exact ih.trans failMany_world
      | some draft =>
          unfold screen
          split
          · exact ih
          · exact ih.trans failMany_world

/-- Screening turns drafts away without a call. -/
theorem screen_idle {drafts : List (Option F.Draft)} :
    Idle desk (screen options desk drafts).2 := by
  induction drafts generalizing desk with
  | nil => exact .refl
  | cons draft rest ih =>
      cases draft with
      | none => exact failMany_idle.trans ih
      | some draft =>
          unfold screen
          split
          · exact ih
          · exact failMany_idle.trans ih

theorem adopt_idle {α : Type} {staged : Staged α} : Idle desk (desk.adopt staged) := by
  refine .of_remote rfl (.many fun event hEvent => ?_)
  obtain ⟨report, -, rfl⟩ := List.mem_map.mp hEvent
  rfl

theorem lookup_idle {keys : KeySet} : Idle desk (desk.lookup keys).2 := ⟨rfl, .single rfl, .refl⟩

/-! ## Work -/

/-- A draft may be processed: it is known, and the resources that it refers to exist. -/
structure Fit (known : F.Draft → Prop) (draft : F.Draft) (desk : Desk F σ) : Prop where
  known : known draft
  stored : ∀ reference ∈ F.references draft, reference ∈ desk.world.remote.resources.keys

/-- One step of an engine: it is idle, or processes a fit draft. -/
inductive Work (options : Options F σ) (known : F.Draft → Prop) :
    Desk F σ → Desk F σ → Prop where
  | idle {before after : Desk F σ} (hIdle : Idle before after) : Work options known before after
  | process (desk : Desk F σ) (draft : F.Draft) (old : Option F.Resource)
      (hFit : Fit known draft desk) :
      Work options known desk (desk.process options draft old).2

/-- Any number of steps of an engine. -/
abbrev Works (options : Options F σ) (known : F.Draft → Prop) : Desk F σ → Desk F σ → Prop :=
  Relation.ReflTransGen (Work options known)

/-- A fit draft stays fit while keys are only added. -/
theorem Fit.mono {known : F.Draft → Prop} {draft : F.Draft} {before after : Desk F σ}
    (hFit : Fit known draft before)
    (hKeys : ∀ key ∈ before.world.remote.resources.keys, key ∈ after.world.remote.resources.keys) :
    Fit known draft after := ⟨hFit.known, fun reference hReference =>
  hKeys reference (hFit.stored reference hReference)⟩

/-- No step takes a key away. -/
theorem Work.keys {known : F.Draft → Prop} {before after : Desk F σ} (hQuiet : options.Quiet)
    (hKeeps : options.KeepsKeys) (hWork : Work options known before after) {key : String}
    (hKey : key ∈ before.world.remote.resources.keys) :
    key ∈ after.world.remote.resources.keys := by
  cases hWork with
  | idle hIdle =>
      rw [hIdle.resources]
      exact hKey
  | process draft old =>
      rw [process_keys hQuiet hKeeps, mem_keysAfter]
      exact Or.inl hKey

/-- A fit draft stays fit, whatever work is done. -/
theorem Fit.works {known : F.Draft → Prop} {draft : F.Draft} {before after : Desk F σ}
    (hFit : Fit known draft before) (hQuiet : options.Quiet) (hKeeps : options.KeepsKeys)
    (hWorks : Works options known before after) : Fit known draft after :=
  keeps_of_reflTransGen (P := Fit known draft) hWorks
    (fun _ _ hWork hFit => hFit.mono fun _ => hWork.keys hQuiet hKeeps) hFit

/-- No work takes a key away. -/
theorem Works.keys {known : F.Draft → Prop} {before after : Desk F σ} (hQuiet : options.Quiet)
    (hKeeps : options.KeepsKeys) (hWorks : Works options known before after) {key : String}
    (hKey : key ∈ before.world.remote.resources.keys) :
    key ∈ after.world.remote.resources.keys :=
  keeps_of_reflTransGen (P := fun desk => key ∈ desk.world.remote.resources.keys) hWorks
    (fun _ _ hWork hBefore => hWork.keys hQuiet hKeeps hBefore) hKey

/-- A draft that ended while work was done was fit, and it still is. -/
theorem Works.fit_of_ended {known : F.Draft → Prop} {before after : Desk F σ}
    (hQuiet : options.Quiet) (hKeeps : options.KeepsKeys)
    (hWorks : Works options known before after) {draft : F.Draft} {phase : Phase}
    {remote : Remote F} (hEvent : Event.ended draft phase remote ∈ after.journal) :
    Event.ended draft phase remote ∈ before.journal ∨ Fit known draft after := by
  refine keeps_of_reflTransGen (P := fun desk => ∀ draft phase remote,
    Event.ended draft phase remote ∈ desk.journal →
      Event.ended draft phase remote ∈ before.journal ∨ Fit known draft desk) hWorks ?_
    (fun _ _ _ => Or.inl) draft phase remote hEvent
  intro earlier later hWork hEarlier draft phase remote hEvent
  have hStill (hOld : Event.ended draft phase remote ∈ earlier.journal) :
      Event.ended draft phase remote ∈ before.journal ∨ Fit known draft later :=
    (hEarlier draft phase remote hOld).imp_right fun hFit =>
      hFit.mono fun _ => hWork.keys hQuiet hKeeps
  cases hWork with
  | idle hIdle => exact hStill (hIdle.of_ended hEvent)
  | process other old hFit =>
      rcases process_of_ended hQuiet hEvent with hOld | rfl
      · exact hStill hOld
      · refine Or.inr (hFit.mono fun key hKey => ?_)
        exact (Work.process earlier draft old hFit).keys hQuiet hKeeps hKey

/-! ## The drafts of a batch -/

variable {found : KeyMap F.Resource} {drafts : List F.Draft} {batches : List (List F.Draft)}

theorem processAll_shelf (hQuiet : options.Quiet) :
    (processAll options found desk drafts).2.world.shelf = desk.world.shelf := by
  induction drafts generalizing desk with
  | nil => rfl
  | cons draft rest ih => exact ih.trans (process_shelf hQuiet)

theorem syncBatch_shelf (hQuiet : options.Quiet) :
    (desk.syncBatch options drafts).2.world.shelf = desk.world.shelf := by
  unfold syncBatch
  split
  · rfl
  · simp only
    split
    · exact processAll_shelf hQuiet
    · rw [failMany_world]
      rfl

/-- Batches leave the shelf alone. -/
theorem syncBatches_shelf (hQuiet : options.Quiet) :
    (syncBatches options desk batches).2.world.shelf = desk.world.shelf := by
  induction batches generalizing desk with
  | nil => rfl
  | cons batch rest ih => exact ih.trans (syncBatch_shelf hQuiet)

theorem processAll_keys (hQuiet : options.Quiet) (hKeeps : options.KeepsKeys) {key : String} :
    key ∈ (processAll options found desk drafts).2.world.remote.resources.keys ↔
      key ∈ desk.world.remote.resources.keys ∨
        (key, Phase.created) ∈ (processAll options found desk drafts).1 := by
  induction drafts generalizing desk with
  | nil => simp [processAll]
  | cons draft rest ih =>
      simp only [processAll]
      rw [ih, process_keys hQuiet hKeeps, mem_keysAfter, List.mem_cons, Prod.mk.injEq, or_assoc]
      simp only [and_comm, eq_comm]

theorem syncBatch_keys (hQuiet : options.Quiet) (hKeeps : options.KeepsKeys) {key : String} :
    key ∈ (desk.syncBatch options drafts).2.world.remote.resources.keys ↔
      key ∈ desk.world.remote.resources.keys ∨
        (key, Phase.created) ∈ (desk.syncBatch options drafts).1 := by
  unfold syncBatch
  split
  · simp
  · simp only
    split
    · exact processAll_keys hQuiet hKeeps
    · simp [lookup, withRemote, withWorld, World.withRemote]

/-- The keys of the remote grow by the keys of the created drafts. -/
theorem syncBatches_keys (hQuiet : options.Quiet) (hKeeps : options.KeepsKeys) {key : String} :
    key ∈ (syncBatches options desk batches).2.world.remote.resources.keys ↔
      key ∈ desk.world.remote.resources.keys ∨
        (key, Phase.created) ∈ (syncBatches options desk batches).1 := by
  induction batches generalizing desk with
  | nil => simp [syncBatches]
  | cons batch rest ih =>
      simp only [syncBatches]
      rw [ih, syncBatch_keys hQuiet hKeeps, List.mem_append, or_assoc]

/-! ## Whom batches are about -/

/-- A desk after steps that worked on known drafts only. -/
def Tells (known : F.Draft → Prop) (before after : Desk F σ) : Prop :=
  ∃ added, after.journal = before.journal ++ added ∧
    ∀ draft ∈ added.filterMap Event.subject?, known draft

section Tells

variable {known : F.Draft → Prop} {before middle after : Desk F σ} {draft : F.Draft}

theorem Tells.of_idle (hJournal : Appends Event.isIdle before.journal after.journal) :
    Tells known before after := by
  obtain ⟨added, hAfter, hAdded⟩ := hJournal
  have hNone : added.filterMap Event.subject? = [] :=
    List.filterMap_eq_nil_iff.mpr fun event hEvent =>
      Option.isNone_iff_eq_none.mp (hAdded event hEvent)
  refine ⟨added, hAfter, fun draft hDraft => ?_⟩
  rw [hNone] at hDraft
  exact absurd hDraft List.not_mem_nil

theorem Tells.refl : Tells known desk desk := .of_idle .refl

theorem Tells.trans (hFirst : Tells known before middle) (hLast : Tells known middle after) :
    Tells known before after := by
  obtain ⟨first, hMiddle, hFirst⟩ := hFirst
  obtain ⟨last, hAfter, hLast⟩ := hLast
  refine ⟨first ++ last, by rw [hAfter, hMiddle, List.append_assoc], fun draft hDraft => ?_⟩
  rw [List.filterMap_append] at hDraft
  exact (List.mem_append.mp hDraft).elim (hFirst draft) (hLast draft)

/-- An entry about a known draft, or about none. -/
theorem Tells.of_single {event : Event F} (hJournal : after.journal = before.journal ++ [event])
    (hSubject : ∀ draft, event.subject? = some draft → known draft) : Tells known before after := by
  refine ⟨[event], hJournal, fun draft hDraft => ?_⟩
  obtain ⟨other, hOther, hAbout⟩ := List.mem_filterMap.mp hDraft
  exact hSubject draft (List.mem_singleton.mp hOther ▸ hAbout)

/-- Whatever is done for a known draft, no other draft is worked on. -/
theorem tells_lasting (hKnown : known draft) : Lasting options draft (Tells known before) where
  report {_ event} hReport hBefore := by
    refine hBefore.trans (.of_single rfl fun other hSubject => ?_)
    cases event with
    | failure | created | updated => cases hSubject
    | _ => cases hReport
  beforeCreate hBefore := by
    refine hBefore.trans ?_
    unfold askBeforeCreate
    split
    · exact .refl
    · exact .of_single rfl fun _ hSubject => Option.some.inj hSubject ▸ hKnown
  beforeUpdate hBefore := by
    refine hBefore.trans ?_
    unfold askBeforeUpdate
    split
    · exact .refl
    · exact .of_single rfl fun _ hSubject => Option.some.inj hSubject ▸ hKnown
  creation _ _ hBefore :=
    hBefore.trans (.of_single rfl fun _ hSubject => Option.some.inj hSubject ▸ hKnown)
  change _ _ _ hBefore :=
    hBefore.trans (.of_single rfl fun _ hSubject => Option.some.inj hSubject ▸ hKnown)
  fetch _ hBefore := hBefore.trans (.of_idle .refl)

theorem syncBatch_tells (hKnown : ∀ draft ∈ drafts, known draft) :
    Tells known desk (desk.syncBatch options drafts).2 := by
  have hLooked : Tells known desk (desk.lookup (F.keysOf drafts)).2 := .of_idle lookup_idle.journal
  unfold syncBatch
  split
  · exact .refl
  · simp only
    split
    · refine Lasting.processAll (fun draft hDraft => tells_lasting (hKnown draft hDraft))
        (fun draft hDraft _ _ hBefore => hBefore.trans ?_) hLooked
      exact .of_single rfl fun _ hSubject => Option.some.inj hSubject ▸ hKnown draft hDraft
    · exact hLooked.trans (.of_idle failMany_idle.journal)

/-- While batches are synced, no other drafts are worked on than theirs. -/
theorem syncBatches_tells (hKnown : ∀ draft ∈ batches.flatten, known draft) :
    Tells known desk (syncBatches options desk batches).2 := by
  induction batches generalizing desk with
  | nil => exact .refl
  | cons batch rest ih =>
      rw [List.flatten_cons] at hKnown
      have hFirst : Tells known desk (desk.syncBatch options batch).2 :=
        syncBatch_tells fun draft hDraft => hKnown draft (List.mem_append_left _ hDraft)
      exact hFirst.trans (ih fun draft hDraft => hKnown draft (List.mem_append_right _ hDraft))

end Tells

/-! ## Batches as work -/

theorem processAll_works {known : F.Draft → Prop} (hQuiet : options.Quiet)
    (hKeeps : options.KeepsKeys) (hFit : ∀ draft ∈ drafts, Fit known draft desk) :
    Works options known desk (processAll options found desk drafts).2 := by
  induction drafts generalizing desk with
  | nil => exact .refl
  | cons draft rest ih =>
      have hFirst : Works options known desk
          (desk.process options draft ((F.draftKey draft).bind found.get?)).2 :=
        .single (.process desk draft _ (hFit draft (List.mem_cons_self ..)))
      refine hFirst.trans (ih fun other hOther => ?_)
      exact (hFit other (List.mem_cons_of_mem _ hOther)).works hQuiet hKeeps hFirst

theorem syncBatch_works {known : F.Draft → Prop} (hQuiet : options.Quiet)
    (hKeeps : options.KeepsKeys) (hFit : ∀ draft ∈ drafts, Fit known draft desk) :
    Works options known desk (desk.syncBatch options drafts).2 := by
  have hLooked : Works options known desk (desk.lookup (F.keysOf drafts)).2 :=
    .single (.idle lookup_idle)
  unfold syncBatch
  split
  · exact .refl
  · simp only
    split
    · refine hLooked.trans (processAll_works hQuiet hKeeps fun draft hDraft => ?_)
      exact (hFit draft hDraft).works hQuiet hKeeps hLooked
    · exact hLooked.tail (.idle failMany_idle)

/-- Batches of fit drafts are worked through by fit steps. -/
theorem syncBatches_works {known : F.Draft → Prop} (hQuiet : options.Quiet)
    (hKeeps : options.KeepsKeys) (hFit : ∀ draft ∈ batches.flatten, Fit known draft desk) :
    Works options known desk (syncBatches options desk batches).2 := by
  induction batches generalizing desk with
  | nil => exact .refl
  | cons batch rest ih =>
      rw [List.flatten_cons] at hFit
      have hFirst : Works options known desk (desk.syncBatch options batch).2 :=
        syncBatch_works hQuiet hKeeps fun draft hDraft =>
          hFit draft (List.mem_append_left _ hDraft)
      refine hFirst.trans (ih fun draft hDraft => ?_)
      exact (hFit draft (List.mem_append_right _ hDraft)).works hQuiet hKeeps hFirst

/-- Every draft of every batch has one outcome, in order. -/
theorem keys_syncBatches :
    (syncBatches options desk batches).1.map (·.1) = batches.flatten.map F.keyOf := by
  induction batches generalizing desk with
  | nil => rfl
  | cons batch rest ih =>
      simp only [syncBatches]
      rw [List.map_append, keys_syncBatch, ih, List.flatten_cons, List.map_append]

end Desk

end CatalogSync
