import CatalogSync.Sync.Engine

/-!
# Two engines on one world

A workbench sets an engine that syncs every draft at once beside one that lets drafts wait for
their references. Both work on the same remote and shelf and report into the same journal, and each
counts for itself.
-/

namespace CatalogSync

/-- Two engines on one world. -/
structure Workbench (F : Family) where
  /-- The collaborators of both engines. -/
  world : World F Unit
  /-- The tally of the engine that syncs every draft at once. -/
  plain : Tally := {}
  /-- The tally of the engine that lets drafts wait. -/
  deferred : Tally := {}
  /-- The drafts that wait. -/
  waiting : Waiting := {}
  /-- What both engines reported. -/
  journal : List (Event F) := []

namespace Workbench

variable {F : Family}

/-- Options that report failures and warnings. -/
def options : Options F Unit := { reportsFailures := true, reportsWarnings := true }

/-- Two engines on an empty world. -/
def start (ids : Nat → String) : Workbench F where
  world := { remote := { ids }, notes := () }

/-- Syncs drafts at once. -/
def syncPlain (bench : Workbench F) (drafts : List (Option F.Draft)) : Workbench F :=
  let run := Engine.sync { options := options }
    { desk := { world := bench.world, tally := bench.plain, journal := bench.journal } } drafts
  { bench with world := run.desk.world, plain := run.desk.tally, journal := run.desk.journal }

/-- Syncs drafts that wait for their references. -/
def syncDeferred (bench : Workbench F) (drafts : List (Option F.Draft)) : Workbench F :=
  let run := Engine.sync { options := options, resolver := some World.askRemote }
    { desk := { world := bench.world, tally := bench.deferred, journal := bench.journal }
      waiting := bench.waiting } drafts
  { bench with
    world := run.desk.world
    deferred := run.desk.tally
    waiting := run.waiting
    journal := run.desk.journal }

/-- Begins the journal anew. -/
def clear (bench : Workbench F) : Workbench F := { bench with journal := [] }

/-- The number of staged records. -/
def staged (bench : Workbench F) : Nat := bench.world.shelf.size F.stagingContainer

/-- The messages of all reported failures. -/
def failures (bench : Workbench F) : List String :=
  bench.journal.filterMap fun
    | .failure report => some report.message
    | _ => none

/-- All reported warnings. -/
def warnings (bench : Workbench F) : List String :=
  bench.journal.filterMap fun
    | .warning message => some message
    | _ => none

end Workbench

end CatalogSync
