import CatalogSync.Sync.Engine

/-!
# The course of an engine

What may be done with an engine and its collaborators from outside: hand drafts in, and script what
goes wrong with later calls. A course is any number of such errands, one after another, from a run
that begins in a given world. Nothing else changes the remote.

## Main results

* `World.script_keeps`: scripting changes no resource and no record.
-/

namespace CatalogSync

/-- What is done with an engine from outside. -/
inductive Errand (F : Family) where
  /-- Drafts are handed in. -/
  | sync (drafts : List (Option F.Draft))
  /-- A fault is scripted for a look-up. -/
  | failLookup (fault : RemoteFault)
  /-- The answer of a fetch is scripted. -/
  | scriptFetch (answer : Scripted)
  /-- The answer of a creation is scripted. -/
  | scriptCreate (answer : Scripted)
  /-- A fault is scripted for an update. -/
  | failUpdate (fault : RemoteFault)
  /-- A fault is scripted for a call of the shelf. -/
  | failStaging (fault : RemoteFault)

/-- The drafts that an errand hands in. -/
def Errand.drafts {F : Family} : Errand F → List (Option F.Draft)
  | .sync drafts => drafts
  | _ => []

variable {F : Family} {σ : Type}

/-- The world in which an errand has scripted something. -/
def World.script (world : World F σ) : Errand F → World F σ
  | .sync _ => world
  | .failLookup fault => world.withRemote (world.remote.failLookup fault)
  | .scriptFetch answer => world.withRemote (world.remote.scriptFetch answer)
  | .scriptCreate answer => world.withRemote (world.remote.scriptCreate answer)
  | .failUpdate fault => world.withRemote (world.remote.failUpdate fault)
  | .failStaging fault => world.withShelf (world.shelf.failNext fault)

namespace Engine

/-- Does one errand. -/
def perform (engine : Engine F σ) (run : Run F σ) (errand : Errand F) : Run F σ :=
  match errand with
  | .sync drafts => engine.sync run drafts
  | script => run.withDesk (run.desk.withWorld (run.desk.world.script script))

/-- Does a number of errands, one after another. -/
def follow (engine : Engine F σ) (run : Run F σ) (errands : List (Errand F)) : Run F σ :=
  errands.foldl engine.perform run

/-- An engine without hooks that asks the remote itself which references exist. -/
def deferring : Engine F Unit where
  resolver := some World.askRemote

end Engine

/-- A world without resources, records and scripted faults. -/
def World.bare (ids : Nat → String) : World F Unit where
  remote := { ids }
  notes := ()

/-- Scripting changes neither the resources, nor the log, nor the containers of the shelf. -/
theorem World.script_keeps {world : World F σ} {errand : Errand F} :
    (world.script errand).remote.resources = world.remote.resources ∧
      (world.script errand).remote.log = world.remote.log ∧
      (world.script errand).shelf.containers = world.shelf.containers := by
  cases errand <;> exact ⟨rfl, rfl, rfl⟩

/-- An errand hands drafts in, or it scripts something. -/
theorem Engine.perform_cases {engine : Engine F σ} {run : Run F σ} {errand : Errand F} :
    engine.perform run errand = engine.sync run errand.drafts ∨
      (errand.drafts = [] ∧ engine.perform run errand =
        run.withDesk (run.desk.withWorld (run.desk.world.script errand))) := by
  cases errand
  case sync drafts => exact Or.inl rfl
  all_goals exact Or.inr ⟨rfl, rfl⟩

end CatalogSync
