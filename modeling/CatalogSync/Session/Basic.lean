import CatalogSync.Session.Notes
import CatalogSync.Sync.Engine

/-!
# Rehearsals

A rehearsal runs an engine against an in-memory remote and shelf whose failures are scripted and
whose content can be changed between the calls. The engine can be replaced by another one over the
same collaborators. Every key that a call names is remembered, so that at the end the resources and
records under these keys can be shown.
-/

namespace CatalogSync

/-- How the engine of a rehearsal is set up. -/
structure Setup (F : Family) where
  /-- The number of drafts in a batch, if it is set. -/
  batchSize : Option Nat := none
  /-- Whether drafts wait for their references. -/
  deferred : Bool := false
  /-- Whether failures and warnings are reported. -/
  reporting : Bool := true
  /-- The rules of the hook before a creation, if it is set. -/
  createRules : Option (List (Rule CreateDeed)) := none
  /-- The rules of the hook before an update, if it is set. -/
  updateRules : Option (List (Rule (UpdateDeed F))) := none

namespace Setup

variable {F : Family}

/-- The options of the engine. -/
def options (setup : Setup F) : Options F (Notes F) :=
  let base : Options F (Notes F) := {
    beforeCreate := setup.createRules.map fun _ => Notes.beforeCreate
    beforeUpdate := setup.updateRules.map fun _ => Notes.beforeUpdate
    announcesCreated := true
    announcesUpdated := true
    reportsFailures := setup.reporting
    reportsWarnings := setup.reporting }
  match setup.batchSize with
  | some size => base.withBatchSize size
  | none => base

/-- The engine itself. -/
def engine (setup : Setup F) : Engine F (Notes F) where
  options := setup.options
  resolver := if setup.deferred then some Notes.resolver else none

end Setup

/-- An engine at work on collaborators that the rehearsal also reaches directly. -/
structure Session (F : Family) where
  /-- The engine. -/
  engine : Engine F (Notes F)
  /-- The state of the engine and its collaborators. -/
  run : Run F (Notes F)

namespace Session

variable {F : Family}

/-- A rehearsal with empty collaborators. -/
def start (ids : Nat → String) (elsewhere : KeySet) (setup : Setup F) : Session F where
  engine := setup.engine
  run := Run.start {
    remote := { ids }
    notes := {
      createRules := setup.createRules.getD []
      updateRules := setup.updateRules.getD []
      elsewhere } }

/-- The collaborators. -/
def world (session : Session F) : World F (Notes F) := session.run.desk.world

/-- The rehearsal with changed collaborators. -/
def withWorld (session : Session F) (world : World F (Notes F)) : Session F :=
  { session with run := session.run.withDesk (session.run.desk.withWorld world) }

/-- The rehearsal with another remote. -/
def withRemote (session : Session F) (remote : Remote F) : Session F :=
  session.withWorld (session.world.withRemote remote)

/-- The rehearsal with another shelf. -/
def withShelf (session : Session F) (shelf : Shelf) : Session F :=
  session.withWorld (session.world.withShelf shelf)

/-- Remembers a key that was named. -/
def name (session : Session F) (key : Option String) : Session F :=
  session.withWorld (session.world.withNotes (session.world.notes.name key))

/-- Scripts a fault for the resolver. -/
def failResolver (session : Session F) (fault : RemoteFault) : Session F :=
  session.withWorld (session.world.withNotes
    { session.world.notes with
      resolverFaults := session.world.notes.resolverFaults ++ [fault] })

/-- Begins the journal anew. -/
def clearJournal (session : Session F) : Session F :=
  { session with run := session.run.withDesk { session.run.desk with journal := [] } }

/-- A new engine over the same collaborators; nothing waits and nothing is counted. -/
def replaceEngine (session : Session F) (setup : Setup F) : Session F where
  engine := setup.engine
  run := {
    desk := {
      world := session.world.withNotes { session.world.notes with
        createRules := setup.createRules.getD []
        updateRules := setup.updateRules.getD [] }
      journal := session.run.desk.journal } }

/-- Syncs drafts. -/
def sync (session : Session F) (drafts : List (Option F.Draft)) : Session F :=
  let named := drafts.foldl (fun session draft => session.name (draft.bind F.draftKey)) session
  { named with run := named.engine.sync named.run drafts }

/-- Puts a resource into the remote. -/
def insert (session : Session F) (resource : F.Resource) : Session F :=
  (session.withRemote (session.world.remote.insert resource)).name (some (F.key resource))

/-- The resource that the remote holds under a key. -/
def resource? (session : Session F) (key : String) : Option F.Resource :=
  session.world.remote.resources.get? key

/-- The resources under the named keys. -/
def resources (session : Session F) : List (String × F.Resource) :=
  session.world.notes.named.toList.filterMap fun key => (session.resource? key).map (key, ·)

/-- The staged values under the named keys. -/
def staged (session : Session F) : List (String × Json) :=
  session.world.notes.named.toList.filterMap fun key =>
    (session.world.shelf.get? F.stagingContainer key).map (key, ·)

end Session

end CatalogSync
