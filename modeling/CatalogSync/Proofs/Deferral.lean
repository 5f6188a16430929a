import CatalogSync.Catalog.Families
import CatalogSync.Proofs.Rounds
import CatalogSync.Proofs.Working
import CatalogSync.Sync.Course

/-!
# Deferral changes nothing for drafts without references

An engine with a resolver takes every batch through more stages than an engine without one: drafts
with missing references are parked, what has ended is settled, and what was created releases drafts
that wait. As long as no draft refers to anything, none is parked, so none ever waits, and all of
these stages are idle. Then two engines that are alike but for the resolver go from desk to desk
together.

The index of the waiting drafts may still hold entries of drafts that were released; they are used
up, and nothing else comes of them.

## Main results

* `Engine.syncBatch_of_none`: a batch without references is screened and synced, and that is all.
* `Engine.follow_level`: whatever is done with the two engines, they stay at the same desk.
* `Engine.deferral_transparent`: deferral makes no difference, and neither the resolver nor the
  shelf is called.
-/

namespace CatalogSync

variable {F : Family} {σ : Type}

/-- The families of the catalog whose drafts refer to no other resources. -/
inductive Family.Independent : Family → Prop
  | productType : Independent Family.productType
  | customType : Independent Family.customType
  | taxCategory : Independent Family.taxCategory

theorem Family.Independent.references_isEmpty (hFamily : F.Independent) (draft : F.Draft) :
    (F.references draft).isEmpty = true := by
  cases hFamily <;> rfl

/-- The fault that an errand scripts for a call of the shelf. -/
def Errand.shelfFault? : Errand F → Option RemoteFault
  | .failStaging fault => some fault
  | _ => none

namespace Engine

variable {engine : Engine F σ} {run plain : Run F σ} {batch : List (Option F.Draft)}
  {errands : List (Errand F)}

/-- The same engine without a resolver, which syncs every draft at once. -/
def direct (engine : Engine F σ) : Engine F σ := { engine with resolver := none }

/-! ## Stages that are idle -/

/-- Where no draft waits, settling releases none. -/
theorem settle_of_none {outcomes : List (String × Phase)}
    (hNone : run.waiting.drafts.isEmpty = true) : engine.settle run outcomes = run := by
  have hReleased : (run.waiting.releaseEach outcomes).1 = [] := by
    refine List.eq_nil_iff_forall_not_mem.mpr fun outcome hMem => ?_
    exact KeySet.isEmpty_iff.mp hNone outcome.1 (Waiting.of_mem_releaseEach hMem).2
  simp [settle, hReleased]

/-- Where no draft waits, available keys concern none: the release is over before a first round. -/
theorem release_of_none {available : KeySet} (hNone : run.waiting.drafts.isEmpty = true) :
    engine.release run available = run.withWaiting (run.waiting.forget available) := by
  have hConcerned : (run.waiting.waitingOn available).isEmpty = true := by
    rw [KeySet.isEmpty_iff] at hNone ⊢
    exact fun key hMem => hNone key (Waiting.mem_waitingOn.mp hMem).1
  rw [release, dif_pos hConcerned]

/-- A batch without references, where no draft waits, is screened and synced, and that is all. -/
theorem syncBatch_of_none (hNone : run.waiting.drafts.isEmpty = true)
    (hPlain : ∀ draft, some draft ∈ batch → (F.references draft).isEmpty = true) :
    (engine.syncBatch run batch).desk = (engine.direct.syncBatch run batch).desk ∧
      (engine.syncBatch run batch).waiting.drafts = run.waiting.drafts := by
  have hReferences : (F.referencesOf (Desk.screen engine.options run.desk batch).1).isEmpty =
      true := by
    rw [KeySet.isEmpty_iff]
    intro reference hMem
    obtain ⟨draft, hDraft, hReference⟩ := Family.mem_referencesOf.mp hMem
    have hEmpty := hPlain draft (Desk.valid_of_mem_screen hDraft).1
    exact KeySet.isEmpty_iff.mp hEmpty reference hReference
  cases hResolver : engine.resolver with
  | none =>
      constructor
      · simp only [syncBatch, direct, hResolver]
      · simp only [syncBatch, hResolver]
        rfl
  | some resolver =>
      have hStill (screened synced : Desk F σ) :
          ((run.withDesk screened).withDesk synced).waiting.drafts.isEmpty = true := hNone
      simp only [syncBatch, direct, hResolver, ready_of_no_references hReferences]
      rw [settle_of_none (hStill _ _), release_of_none (hStill _ _)]
      exact ⟨rfl, rfl⟩

/-! ## Two engines side by side -/

/-- A run is at the same desk as that of an engine without a resolver, and no draft waits in it. -/
structure Level (run plain : Run F σ) : Prop where
  desk : run.desk = plain.desk
  none : run.waiting.drafts.isEmpty = true

/-- One batch takes both engines to the same desk. -/
theorem syncBatch_level (hLevel : Level run plain)
    (hPlain : ∀ draft, some draft ∈ batch → (F.references draft).isEmpty = true) :
    Level (engine.syncBatch run batch) (engine.direct.syncBatch plain batch) := by
  obtain ⟨hDesk, hDrafts⟩ := @syncBatch_of_none F σ engine run batch hLevel.none hPlain
  have hSame : (engine.direct.syncBatch run batch).desk =
      (engine.direct.syncBatch plain batch).desk := by
    simp only [syncBatch, direct, hLevel.desk]
    rfl
  refine ⟨hDesk.trans hSame, ?_⟩
  rw [hDrafts]
  exact hLevel.none

theorem syncBatches_level {batches : List (List (Option F.Draft))} (hLevel : Level run plain)
    (hPlain : ∀ draft, some draft ∈ batches.flatten → (F.references draft).isEmpty = true) :
    Level (batches.foldl engine.syncBatch run) (batches.foldl engine.direct.syncBatch plain) := by
  induction batches generalizing run plain with
  | nil => exact hLevel
  | cons batch rest ih =>
      rw [List.flatten_cons] at hPlain
      refine ih (syncBatch_level hLevel fun draft hMem => ?_) fun draft hMem => ?_
      · exact hPlain draft (List.mem_append_left _ hMem)
      · exact hPlain draft (List.mem_append_right _ hMem)

/-- Whatever is done with the two engines, they stay at the same desk. -/
theorem follow_level (hLevel : Level run plain)
    (hPlain : ∀ draft, some draft ∈ errands.flatMap Errand.drafts →
      (F.references draft).isEmpty = true) :
    Level (engine.follow run errands) (engine.direct.follow plain errands) := by
  induction errands generalizing run plain with
  | nil => exact hLevel
  | cons errand rest ih =>
      rw [List.flatMap_cons] at hPlain
      refine ih ?_ fun draft hMem => hPlain draft (List.mem_append_right _ hMem)
      cases errand with
      | sync drafts =>
          have hAll : (engine.options.batches drafts).flatten = drafts := Options.flatten_batches
          refine syncBatches_level hLevel fun draft hMem => ?_
          exact hPlain draft (List.mem_append_left _ (hAll ▸ hMem))
      | _ =>
          refine ⟨?_, hLevel.none⟩
          simp only [perform, Run.withDesk, hLevel.desk]

/-! ## What the engine without a resolver does -/

theorem direct_syncBatch_worked :
    Desk.Worked engine.options run.desk (engine.direct.syncBatch run batch).desk :=
  Desk.screen_worked.trans Desk.syncBatch_worked

theorem direct_sync_worked {drafts : List (Option F.Draft)} :
    Desk.Worked engine.options run.desk (engine.direct.sync run drafts).desk := by
  unfold sync
  induction engine.direct.options.batches drafts generalizing run with
  | nil => exact .refl
  | cons batch rest ih => exact direct_syncBatch_worked.trans ih

/-- It parks no draft and asks no resolver. -/
theorem direct_follow_journal :
    Appends Event.isWork run.desk.journal (engine.direct.follow run errands).desk.journal := by
  induction errands generalizing run with
  | nil => exact .refl
  | cons errand rest ih =>
      refine Appends.trans ?_ ih
      rcases @perform_cases F σ engine.direct run errand with hSync | ⟨-, hScript⟩
      · rw [hSync]
        exact direct_sync_worked.journal
      · rw [hScript]
        exact .refl

/-- It leaves the shelf to the hooks. So the faults that are scripted for the shelf stay there, one
after another, if no hook reaches for it. -/
theorem direct_follow_shelf (hSpares : engine.options.SparesShelf) :
    (engine.direct.follow run errands).desk.world.shelf =
      (errands.filterMap Errand.shelfFault?).foldl Shelf.failNext run.desk.world.shelf := by
  induction errands generalizing run with
  | nil => rfl
  | cons errand rest ih =>
      refine Eq.trans ih ?_
      cases errand with
      | sync drafts =>
          have hSame : (engine.direct.perform run (.sync drafts)).desk.world.shelf =
              run.desk.world.shelf := direct_sync_worked.shelf hSpares
          rw [hSame]
          rfl
      | _ => rfl

/-! ## The theorem -/

/--
Deferral changes nothing for drafts without references. If no draft waits, and no draft that is
handed in refers to anything, then an engine with a resolver ends at the very desk at which it would
end without one: the tally, everything that was announced and reported, the calls of the remote, its
resources and what the hooks remember are the same. Still no draft waits. No record was parked and
the resolver was not asked; and if the hooks leave the shelf alone, it is as it was, and all the
faults that were scripted for it meanwhile are still to come.
-/
theorem deferral_transparent (engine : Engine F σ) (run : Run F σ) (errands : List (Errand F))
    (hNone : run.waiting.drafts.isEmpty = true)
    (hPlain : F.Independent ∨ ∀ draft, some draft ∈ errands.flatMap Errand.drafts →
      (F.references draft).isEmpty = true) :
    let deferred := engine.follow run errands
    deferred.desk = (engine.direct.follow run errands).desk ∧
      deferred.waiting.drafts.isEmpty = true ∧
      Appends Event.isWork run.desk.journal deferred.desk.journal ∧
      (engine.options.SparesShelf → deferred.desk.world.shelf =
        (errands.filterMap Errand.shelfFault?).foldl Shelf.failNext run.desk.world.shelf) := by
  intro deferred
  have hReferences : ∀ draft, some draft ∈ errands.flatMap Errand.drafts →
      (F.references draft).isEmpty = true := by
    rcases hPlain with hFamily | hPlain
    · exact fun draft _ => hFamily.references_isEmpty draft
    · exact hPlain
  have hLevel : Level deferred (engine.direct.follow run errands) :=
    follow_level ⟨rfl, hNone⟩ hReferences
  refine ⟨hLevel.desk, hLevel.none, ?_, fun hSpares => ?_⟩
  · rw [hLevel.desk]
    exact direct_follow_journal
  · rw [hLevel.desk]
    exact direct_follow_shelf hSpares

/-- A category without a parent is created although the resolver and the shelf would fail. -/
theorem deferral_transparent_shirts :
    let names : LocalizedText := ⟨KeyMap.empty⟩
    let engine : Engine Family.category Unit :=
      { resolver := some fun world _ => (.error (.other "unreachable"), world) }
    let errands : List (Errand Family.category) :=
      [ .failStaging (.other "unreachable")
      , .sync [some (Category.Draft.basic "shirts" names names)] ]
    let deferred := engine.follow (Run.start (.bare toString)) errands
    deferred.desk = (engine.direct.follow (Run.start (.bare toString)) errands).desk ∧
      deferred.desk.world.shelf.faults = [.other "unreachable"] ∧
      deferred.desk.tally.created = 1 := by
  intro names engine errands deferred
  have hPlain : ∀ draft, some draft ∈ errands.flatMap Errand.drafts →
      (Family.category.references draft).isEmpty = true := by
    intro draft hMem
    cases List.mem_singleton.mp hMem
    rfl
  have hSpares : engine.options.SparesShelf := by
    constructor
    · exact fun hook hHook => nomatch hHook
    · exact fun hook hHook => nomatch hHook
  obtain ⟨hDesk, -, -, hShelf⟩ := deferral_transparent engine (Run.start (.bare toString)) errands
    rfl (Or.inr hPlain)
  exact ⟨hDesk, congrArg Shelf.faults (hShelf hSpares), by decide +kernel⟩

end Engine

end CatalogSync
