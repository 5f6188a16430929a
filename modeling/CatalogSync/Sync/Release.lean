import CatalogSync.Sync.Admission

/-!
# Release of waiting drafts

Resources that a batch created may be what parked drafts wait for. Round by round the drafts that
an available key concerns are fetched from the staging area; those with no key missing any more are
synced, the others are saved with the keys that are still missing. What a round creates becomes
available to the next one.

Every round uses up index entries and no round adds any, so the rounds end.

## Main results

* `releaseRound_byMissing`: a round leaves the index as it was without the entries used up.
-/

namespace CatalogSync.Engine

variable {F : Family} {σ : Type}

/-! ## After a batch -/

/-- The keys of the drafts that were created. -/
def createdKeys (outcomes : List (String × Phase)) : KeySet :=
  KeySet.ofList ((outcomes.filter fun outcome => outcome.2 == .created).map (·.1))

theorem mem_createdKeys {outcomes : List (String × Phase)} {key : String} :
    key ∈ createdKeys outcomes ↔ (key, Phase.created) ∈ outcomes := by
  simp [createdKeys]

/-- Deletes the records of released drafts that succeeded; the others stay staged. -/
def clearRecords (engine : Engine F σ) :
    Desk F σ → List (String × Phase) → Desk F σ
  | desk, [] => desk
  | desk, outcome :: rest =>
      if outcome.2.isSuccess then
        engine.clearRecords (desk.adopt (engine.area.delete desk.world.shelf outcome.1)) rest
      else engine.clearRecords desk rest

/-- Takes the drafts that ended from those that wait, and clears the records of the successful. -/
def settle (engine : Engine F σ) (run : Run F σ) (outcomes : List (String × Phase)) : Run F σ :=
  let released := run.waiting.releaseEach outcomes
  if released.1.isEmpty then run
  else
    let settled := (run.withWaiting released.2).gauge
    settled.withDesk (engine.clearRecords settled.desk released.1)

/-! ## One round -/

/-- Gives drafts up whose records cannot be fetched. -/
def abandon (engine : Engine F σ) (run : Run F σ) (drafts : KeySet) (cause : Cause) : Run F σ :=
  let released := (run.withWaiting (run.waiting.releaseAll drafts)).gauge
  released.withDesk (released.desk.failMany engine.options
    s!"Failed to fetch deferred {F.plural} with keys: '{drafts.render}'." cause drafts.size)

/-- Sorts records out: the drafts that miss nothing any more, the other records saved again. -/
def sortRecords (engine : Engine F σ) (available : KeySet) :
    Desk F σ → List (Parked F) → List F.Draft × Desk F σ
  | desk, [] => ([], desk)
  | desk, record :: rest =>
      let reduced := record.without available
      if reduced.missing.isEmpty then
        let others := engine.sortRecords available desk rest
        (reduced.draft :: others.1, others.2)
      else
        engine.sortRecords available
          (desk.adopt (engine.area.save desk.world.shelf reduced)) rest

/-- One round for the waiting drafts that available keys concern; the keys that it created. -/
def releaseRound (engine : Engine F σ) (run : Run F σ) (available concerned : KeySet) :
    KeySet × Run F σ :=
  let fetched := engine.area.fetch run.desk.world.shelf concerned
  let begun := (run.withWaiting (run.waiting.forget available)).withDesk
    (run.desk.withShelf fetched.2)
  match fetched.1 with
  | .error cause => (∅, engine.abandon begun concerned cause)
  | .ok records =>
      let sorted := engine.sortRecords available begun.desk records
      let synced := Desk.syncBatches engine.options sorted.2 (engine.options.batches sorted.1)
      (createdKeys synced.1, engine.settle (begun.withDesk synced.2) synced.1)

theorem settle_byMissing {engine : Engine F σ} {run : Run F σ}
    {outcomes : List (String × Phase)} :
    (engine.settle run outcomes).waiting.byMissing = run.waiting.byMissing := by
  simp only [settle]
  split
  · rfl
  · exact Waiting.releaseEach_byMissing

/-- A round leaves the index as it was without the entries used up. -/
theorem releaseRound_byMissing {engine : Engine F σ} {run : Run F σ}
    {available concerned : KeySet} :
    (engine.releaseRound run available concerned).2.waiting.byMissing =
      (run.waiting.forget available).byMissing := by
  simp only [releaseRound]
  split
  · rfl
  · exact settle_byMissing

/-! ## All rounds -/

/-- Releases the drafts that wait for available keys, and for what they in turn create. -/
def release (engine : Engine F σ) (run : Run F σ) (available : KeySet) : Run F σ :=
  if _hNone : (run.waiting.waitingOn available).isEmpty = true then
    run.withWaiting (run.waiting.forget available)
  else
    let round := engine.releaseRound run available (run.waiting.waitingOn available)
    engine.release round.2 round.1
termination_by run.waiting.byMissing.size
decreasing_by
  rw [releaseRound_byMissing]
  exact Waiting.size_forget_lt _hNone

end CatalogSync.Engine
