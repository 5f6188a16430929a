import CatalogSync.Sync.Batch
import CatalogSync.Sync.Waiting

/-!
# Runs of an engine

A run is what lasts between two calls of an engine: the desk with its tally, and the index of the
drafts that wait. The gauge of the tally is set from the index whenever the index changes its
drafts.
-/

namespace CatalogSync

/-- The state of an engine between its calls. -/
structure Run (F : Family) (σ : Type) where
  /-- The collaborators, the outcomes and the journal. -/
  desk : Desk F σ
  /-- The drafts that wait for references. -/
  waiting : Waiting := {}

namespace Run

variable {F : Family} {σ : Type}

/-- A run that begins in a world. -/
def start (world : World F σ) : Run F σ where
  desk := { world }

/-- The run with another desk. -/
def withDesk (run : Run F σ) (desk : Desk F σ) : Run F σ := { run with desk }

/-- The run with another index. -/
def withWaiting (run : Run F σ) (waiting : Waiting) : Run F σ := { run with waiting }

/-- Sets the gauge to the number of waiting drafts. -/
def gauge (run : Run F σ) : Run F σ :=
  run.withDesk (run.desk.withTally
    (run.desk.tally.withWaiting (UInt64.ofNat run.waiting.drafts.size)))

end Run

/-- The staging area of an engine. -/
def Engine.area {F : Family} {σ : Type} (engine : Engine F σ) : Area F where
  container := F.stagingContainer
  reporting := engine.options.reportsFailures

end CatalogSync
