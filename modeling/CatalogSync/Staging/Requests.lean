import CatalogSync.Staging.Area

/-!
# Requests for a shelf

Any number of staging areas may share a shelf, and several of them a container. Each container holds
the records of one family. What the areas ask for, together with the faults that are scripted in
between, is a list of requests; the shelf serves one after another, and each has its reply.
-/

namespace CatalogSync.Shelf

variable {kind : String → Family}

/-- What is asked of a shelf whose containers hold the records of certain families, or scripted for
it. A call comes from an area that reports its failures or does not. -/
inductive Request (kind : String → Family) where
  /-- Saves a record in a container. -/
  | save (container : String) (reporting : Bool) (record : Parked (kind container))
  /-- Fetches the records under a set of keys of a container. -/
  | fetch (container : String) (reporting : Bool) (keys : KeySet)
  /-- Deletes the record under a key of a container. -/
  | delete (container : String) (reporting : Bool) (key : String)
  /-- A fault is scripted for a later call. -/
  | failNext (fault : RemoteFault)

/-- What a request is answered, and what is reported meanwhile. -/
inductive Reply (kind : String → Family) where
  /-- The reply to a save: the record, unless it failed. -/
  | saved (container : String) (answer : Option (Parked (kind container))) (reports : List Report)
  /-- The reply to a fetch: the records, or why there are none. -/
  | fetched (container : String) (answer : Except Cause (List (Parked (kind container))))
  /-- The reply to a deletion: the record that was there, unless it failed. -/
  | deleted (container : String) (answer : Option (Parked (kind container))) (reports : List Report)
  /-- A fault was scripted. -/
  | scripted

/-- Serves one request. -/
def handle (shelf : Shelf) : Request kind → Reply kind × Shelf
  | .save container reporting record =>
      let staged := (⟨container, reporting⟩ : Area (kind container)).save shelf record
      (.saved container staged.answer staged.reports, staged.shelf)
  | .fetch container reporting keys =>
      let fetched := (⟨container, reporting⟩ : Area (kind container)).fetch shelf keys
      (.fetched container fetched.1, fetched.2)
  | .delete container reporting key =>
      let staged := (⟨container, reporting⟩ : Area (kind container)).delete shelf key
      (.deleted container staged.answer staged.reports, staged.shelf)
  | .failNext fault => (.scripted, shelf.failNext fault)

/-- Serves a number of requests, one after another; the reply to each, in order. -/
def handleAll : Shelf → List (Request kind) → List (Reply kind) × Shelf
  | shelf, [] => ([], shelf)
  | shelf, request :: rest =>
      let first := shelf.handle request
      let others := handleAll first.2 rest
      (first.1 :: others.1, others.2)

end CatalogSync.Shelf
