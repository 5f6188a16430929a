import CatalogSync.Proofs.Rounds
import CatalogSync.Sync.Course

/-!
# What lasts through a call

There are nine things that an engine does to a run. A property that each of them keeps is kept by a
batch with all its rounds, by a whole call, and by any number of calls. It may be about the run
itself, or about what has happened since an earlier one.

Nothing is known here about the drafts and records that are dealt with, and the nine things are not
told apart further. Properties that need more, like the invariants of waiting drafts, go through the
batches and rounds on their own.

## Main results

* `Engine.Lasting.round`, `Engine.Lasting.syncBatch`: one round and one batch keep what lasts.
* `Engine.Lasting.syncBatches`, `Engine.Lasting.follow`: so do any number of batches and calls.
-/

namespace CatalogSync.Engine

variable {F : Family} {σ : Type}

/-- A property of runs that everything keeps that an engine does. -/
structure Lasting (engine : Engine F σ) (P : Run F σ → Prop) : Prop where
  fail : ∀ {run message cause count}, P run →
    P (run.withDesk (run.desk.failMany engine.options message cause count))
  ask : ∀ {run resolver keys}, engine.resolver = some resolver → P run →
    P (run.withDesk ((run.desk.enter (.resolving keys)).withWorld
      (resolver run.desk.world keys).2))
  park : ∀ {run draft missing}, P run → P (engine.park run draft missing)
  sync : ∀ {run drafts}, P run → P (run.withDesk (run.desk.syncBatch engine.options drafts).2)
  settle : ∀ {run outcomes}, P run → P (engine.settle run outcomes)
  fetch : ∀ {run keys}, P run →
    P (run.withDesk (run.desk.withShelf (engine.area.fetch run.desk.world.shelf keys).2))
  sort : ∀ {run available records}, P run →
    P (run.withDesk (engine.sortRecords available run.desk records).2)
  forget : ∀ {run available}, P run → P (run.withWaiting (run.waiting.forget available))
  abandon : ∀ {run drafts cause}, P run → P (engine.abandon run drafts cause)

namespace Lasting

variable {engine : Engine F σ} {P : Run F σ → Prop} {run : Run F σ}

/-! ## The stages of a batch -/

theorem screen (hLasting : engine.Lasting P) {batch : List (Option F.Draft)} (hRun : P run) :
    P (run.withDesk (Desk.screen engine.options run.desk batch).2) := by
  induction batch generalizing run with
  | nil => exact hRun
  | cons draft rest ih =>
      cases draft with
      | none => exact ih (hLasting.fail hRun)
      | some draft =>
          unfold Desk.screen
          split
          · exact ih hRun
          · exact ih (hLasting.fail hRun)

theorem parkIncomplete (hLasting : engine.Lasting P) {existing : KeySet} {drafts : List F.Draft}
    (hRun : P run) : P (engine.parkIncomplete existing run drafts).2 := by
  induction drafts generalizing run with
  | nil => exact hRun
  | cons draft rest ih =>
      simp only [Engine.parkIncomplete]
      split
      · exact ih hRun
      · exact ih (hLasting.park hRun)

/-- What lasts is kept while a batch is made ready, whether the resolver answers or not. -/
theorem ready (hLasting : engine.Lasting P) {resolver : Resolver F σ} {drafts : List F.Draft}
    (hResolver : engine.resolver = some resolver) (hRun : P run) :
    P (engine.ready resolver run drafts).2 := by
  by_cases hNone : (F.referencesOf drafts).isEmpty = true
  · rw [ready_of_no_references hNone]
    exact hRun
  · have hAsked : P (run.withDesk ((run.desk.enter (.resolving (F.referencesOf drafts))).withWorld
        (resolver run.desk.world (F.referencesOf drafts)).2)) := hLasting.ask hResolver hRun
    simp only [Engine.ready, if_neg hNone]
    split
    · exact hLasting.parkIncomplete hAsked
    · exact hLasting.fail hAsked

theorem readyBatches (hLasting : engine.Lasting P) {batches : List (List F.Draft)} (hRun : P run) :
    P (run.withDesk (Desk.syncBatches engine.options run.desk batches).2) := by
  induction batches generalizing run with
  | nil => exact hRun
  | cons batch rest ih => exact ih (hLasting.sync hRun)

/-- One round keeps what lasts, whether it gives its drafts up or syncs them. -/
theorem round (hLasting : engine.Lasting P) {available concerned : KeySet} (hRun : P run) :
    P (engine.releaseRound run available concerned).2 := by
  have hFetched : P ((run.withWaiting (run.waiting.forget available)).withDesk
      (run.desk.withShelf (engine.area.fetch run.desk.world.shelf concerned).2)) :=
    hLasting.fetch (hLasting.forget hRun)
  simp only [releaseRound]
  split
  · exact hLasting.abandon hFetched
  · exact hLasting.settle (hLasting.readyBatches (hLasting.sort hFetched))

theorem release (hLasting : engine.Lasting P) {available : KeySet} (hRun : P run) :
    P (engine.release run available) :=
  release_induct (P := fun _ run => P run) (fun _ _ _ hBefore => hLasting.round hBefore)
    (fun _ _ _ hBefore => hLasting.forget hBefore) hRun

/-! ## Batches and calls -/

/-- One batch with all its rounds keeps what lasts. -/
theorem syncBatch (hLasting : engine.Lasting P) {batch : List (Option F.Draft)} (hRun : P run) :
    P (engine.syncBatch run batch) := by
  have hScreened : P (run.withDesk (Desk.screen engine.options run.desk batch).2) :=
    hLasting.screen hRun
  unfold Engine.syncBatch
  split
  · exact hLasting.sync hScreened
  · rename_i resolver hSome
    exact hLasting.release (hLasting.settle (hLasting.sync (hLasting.ready hSome hScreened)))

theorem syncBatches (hLasting : engine.Lasting P) {batches : List (List (Option F.Draft))}
    (hRun : P run) : P (batches.foldl engine.syncBatch run) := by
  induction batches generalizing run with
  | nil => exact hRun
  | cons batch rest ih => exact ih (hLasting.syncBatch hRun)

/-- Any number of calls keep what lasts, if scripting faults between them does. -/
theorem follow (hLasting : engine.Lasting P)
    (hScript : ∀ run errand, P run →
      P (run.withDesk (run.desk.withWorld (run.desk.world.script errand))))
    {errands : List (Errand F)} (hRun : P run) : P (engine.follow run errands) := by
  induction errands generalizing run with
  | nil => exact hRun
  | cons errand rest ih =>
      refine ih ?_
      rcases @perform_cases F σ engine run errand with hSync | ⟨-, hDone⟩
      · rw [hSync]
        exact hLasting.syncBatches hRun
      · rw [hDone]
        exact hScript run errand hRun

end Lasting

end CatalogSync.Engine
