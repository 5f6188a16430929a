import CatalogSync.Sync.Release

/-!
# The sync engine

An engine takes drafts, cuts them into batches, and brings the remote into the state that they
describe. No failure stops it: every one is reported and counted, and the next draft follows.
-/

namespace CatalogSync.Engine

variable {F : Family} {σ : Type}

/--
Syncs one batch. Without a resolver, every draft that passes the screening is synced at once;
with one, drafts may be parked, and what the batch creates releases waiting drafts.
-/
def syncBatch (engine : Engine F σ) (run : Run F σ) (batch : List (Option F.Draft)) : Run F σ :=
  let screened := Desk.screen engine.options run.desk batch
  match engine.resolver with
  | none => run.withDesk (screened.2.syncBatch engine.options screened.1).2
  | some resolver =>
      let chosen := engine.ready resolver (run.withDesk screened.2) screened.1
      let synced := chosen.2.desk.syncBatch engine.options chosen.1
      engine.release (engine.settle (chosen.2.withDesk synced.2) synced.1)
        (createdKeys synced.1)

/-- Syncs drafts, an absent draft being one that fails. -/
def sync (engine : Engine F σ) (run : Run F σ) (drafts : List (Option F.Draft)) : Run F σ :=
  (engine.options.batches drafts).foldl engine.syncBatch run

end CatalogSync.Engine
