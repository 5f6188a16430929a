import CatalogSync.Sync.Phase

/-!
# Tallies

How the drafts of an engine ended. The counters are unsigned 64-bit numbers and wrap around; how
many drafts wait for references is a gauge beside them and no outcome.

## Main results

* `waiting_record`: how a draft ended does not touch the gauge.
-/

namespace CatalogSync

/-- How many drafts ended in which way. -/
structure Tally where
  /-- Resources created. -/
  created : UInt64 := 0
  /-- Resources updated. -/
  updated : UInt64 := 0
  /-- Resources that needed no change. -/
  upToDate : UInt64 := 0
  /-- Drafts that could not be synced. -/
  failed : UInt64 := 0
  /-- Drafts that wait for references. -/
  waiting : UInt64 := 0
deriving DecidableEq, Repr

namespace Tally

/-- How many drafts have an outcome. -/
def processed (tally : Tally) : UInt64 :=
  tally.created + tally.updated + tally.upToDate + tally.failed

/-- Counts a number of failed drafts. -/
def addFailed (tally : Tally) (count : UInt64) : Tally :=
  { tally with failed := tally.failed + count }

/-- Sets the gauge of waiting drafts. -/
def withWaiting (tally : Tally) (count : UInt64) : Tally := { tally with waiting := count }

/-- Counts one draft that ended in a phase; a draft that is not synced yet is not counted. -/
def record (tally : Tally) : Phase → Tally
  | .created => { tally with created := tally.created + 1 }
  | .updated => { tally with updated := tally.updated + 1 }
  | .upToDate => { tally with upToDate := tally.upToDate + 1 }
  | .failed => tally.addFailed 1
  | _ => tally

/-- The tally as a sentence about resources with a plural name. -/
def summary (tally : Tally) (plural : String) : String :=
  s!"Summary: {tally.processed} {plural} were processed in total ({tally.created} created, " ++
  s!"{tally.updated} updated, {tally.failed} failed to sync and {tally.waiting} {plural} " ++
  "with missing references)."

/-- How a draft ended does not touch the gauge. -/
theorem waiting_record {tally : Tally} {phase : Phase} :
    (tally.record phase).waiting = tally.waiting := by
  cases phase <;> rfl

end Tally

end CatalogSync
