import CatalogSync.Sync.Processing

/-!
# Batches of drafts

The drafts of a batch are matched against the resources of their keys with one look-up, and then
processed one after another, each to its end. What the look-up answered stays the basis of the
whole batch: a second draft with the same key is compared with the resource as it was looked up.

## Main results

* `keys_syncBatch`: every draft of a batch has one outcome, in order.
-/

namespace CatalogSync

/-- The keys of a list of drafts. -/
def Family.keysOf (F : Family) (drafts : List F.Draft) : KeySet :=
  KeySet.ofList (drafts.map F.keyOf)

namespace Desk

variable {F : Family} {σ : Type}

/-- Looks up the resources of a set of keys. -/
def lookup (desk : Desk F σ) (keys : KeySet) :
    Except RemoteFault (List F.Resource) × Desk F σ :=
  let call := desk.world.remote.lookup keys
  (call.1, desk.withRemote call.2)

/-- Processes drafts in order, each with the resource that was found for its key. -/
def processAll (options : Options F σ) (found : KeyMap F.Resource) :
    Desk F σ → List F.Draft → List (String × Phase) × Desk F σ
  | desk, [] => ([], desk)
  | desk, draft :: rest =>
      let first := desk.process options draft ((F.draftKey draft).bind found.get?)
      let others := processAll options found first.2 rest
      ((F.keyOf draft, first.1) :: others.1, others.2)

/-- Syncs the drafts of one batch; the outcome of each, in order. -/
def syncBatch (desk : Desk F σ) (options : Options F σ) (drafts : List F.Draft) :
    List (String × Phase) × Desk F σ :=
  if drafts.isEmpty then ([], desk)
  else
    let looked := desk.lookup (F.keysOf drafts)
    match looked.1 with
    | .ok found =>
        processAll options (KeyMap.ofList (found.map fun resource => (F.key resource, resource)))
          looked.2 drafts
    | .error fault =>
        (drafts.map fun draft => (F.keyOf draft, .failed),
          looked.2.failMany options
            (s!"Failed to fetch existing {F.plural} with keys: " ++
              s!"'{(F.keysOf drafts).render}'.")
            (.remote fault) drafts.length)

/-- Syncs batches one after another; the outcome of each draft, in order. -/
def syncBatches (options : Options F σ) :
    Desk F σ → List (List F.Draft) → List (String × Phase) × Desk F σ
  | desk, [] => ([], desk)
  | desk, batch :: rest =>
      let first := desk.syncBatch options batch
      let others := syncBatches options first.2 rest
      (first.1 ++ others.1, others.2)

theorem keys_processAll {options : Options F σ} {found : KeyMap F.Resource} {desk : Desk F σ}
    {drafts : List F.Draft} :
    (processAll options found desk drafts).1.map (·.1) = drafts.map F.keyOf := by
  induction drafts generalizing desk with
  | nil => rfl
  | cons draft rest ih => exact congrArg (F.keyOf draft :: ·) ih

/-- Every draft of a batch has one outcome, in order. -/
theorem keys_syncBatch {desk : Desk F σ} {options : Options F σ} {drafts : List F.Draft} :
    (desk.syncBatch options drafts).1.map (·.1) = drafts.map F.keyOf := by
  unfold syncBatch
  split
  · rename_i hEmpty
    rw [List.isEmpty_iff.mp hEmpty]
    rfl
  · simp only
    split
    · exact keys_processAll
    · simp

end Desk

end CatalogSync
