import CatalogSync.Report
import CatalogSync.Staging.Parked
import CatalogSync.Staging.Shelf

/-!
# Staging areas

A staging area is one container of a shelf that holds parked drafts, each under its key. Saving and
deleting never stop a run: what goes wrong is reported, and the answer is absent. A fetch that fails
answers its cause.

## Main results

* `save_of_calm`, `save_of_fault`: a save writes the record or reports the fault it met.
* `save_get?_ne`, `delete_get?_ne`: other records are left alone, whether a call succeeds or not.
* `delete_of_fault`, `fetch_of_fault`: so does a deletion, and a fetch answers the fault.
* `fetch_get?`: a fetch leaves all records alone.
-/

namespace CatalogSync

/-- What a call on a staging area came to. -/
structure Staged (α : Type) where
  /-- The answer of the call. -/
  answer : α
  /-- What was reported, if reports are asked for. -/
  reports : List Report
  /-- The shelf after the call. -/
  shelf : Shelf

/-- The container of a shelf that holds the parked drafts of a family. -/
structure Area (F : Family) where
  /-- The name of the container. -/
  container : String
  /-- Whether failures are reported. -/
  reporting : Bool

namespace Area

variable {F : Family}

/-- The report of a failed operation, if reports are asked for. -/
def reported (area : Area F) (operation key : String) (cause : Cause) : List Report :=
  if area.reporting then
    [⟨s!"Failed to {operation} deferred draft with key: '{key}'. Reason: {cause.message}", cause⟩]
  else []

/-- Saves a record under its key, in place of any earlier one. -/
def save (area : Area F) (shelf : Shelf) (record : Parked F) : Staged (Option (Parked F)) :=
  let call := shelf.upsert area.container record.key (Parked.codec.encode record)
  match call.1 with
  | .ok _ => ⟨some record, [], call.2⟩
  | .error fault => ⟨none, area.reported "save" record.key (.remote fault), call.2⟩

/-- Fetches the records under a set of keys, by increasing key; no key asks for no call. -/
def fetch (area : Area F) (shelf : Shelf) (keys : KeySet) :
    Except Cause (List (Parked F)) × Shelf :=
  if keys.isEmpty then (.ok [], shelf)
  else
    let call := shelf.fetch area.container keys
    match call.1 with
    | .error fault => (.error (.remote fault), call.2)
    | .ok values =>
        match values.mapM fun entry => Parked.codec.decode entry.2 with
        | some records => (.ok records, call.2)
        | none => (.error .unreadable, call.2)

/-- Deletes the record under a key and answers it. -/
def delete (area : Area F) (shelf : Shelf) (key : String) : Staged (Option (Parked F)) :=
  let call := shelf.delete area.container key
  match call.1 with
  | .ok none => ⟨none, [], call.2⟩
  | .ok (some value) =>
      match Parked.codec.decode value with
      | some record => ⟨some record, [], call.2⟩
      | none => ⟨none, area.reported "delete" key .unreadable, call.2⟩
  | .error fault => ⟨none, area.reported "delete" key (.remote fault), call.2⟩

/-- Without a scripted fault, a save answers the record and puts it under its key. -/
theorem save_of_calm {area : Area F} {shelf : Shelf} {record : Parked F}
    (hCalm : shelf.faults = []) :
    area.save shelf record =
      ⟨some record, [], shelf.withContainer area.container
        ((shelf.container area.container).insert record.key (Parked.codec.encode record))⟩ := by
  simp [save, Shelf.upsert, hCalm]

/-- A save that meets a fault reports it and writes nothing. -/
theorem save_of_fault {area : Area F} {shelf : Shelf} {record : Parked F} {fault : RemoteFault}
    {faults : List RemoteFault} (hFaults : shelf.faults = fault :: faults) :
    area.save shelf record =
      ⟨none, area.reported "save" record.key (.remote fault), shelf.withoutFault⟩ := by
  simp [save, Shelf.upsert, hFaults]

/-- A fetch of some key that meets a fault answers it. -/
theorem fetch_of_fault {area : Area F} {shelf : Shelf} {keys : KeySet} {fault : RemoteFault}
    {faults : List RemoteFault} (hSome : ¬ keys.isEmpty = true)
    (hFaults : shelf.faults = fault :: faults) :
    area.fetch shelf keys = (.error (.remote fault),
      { shelf.withoutFault with fetches := shelf.fetches + 1 }) := by
  simp [fetch, Shelf.fetch, hSome, hFaults]

/-- A deletion that meets a fault reports it and removes nothing. -/
theorem delete_of_fault {area : Area F} {shelf : Shelf} {key : String} {fault : RemoteFault}
    {faults : List RemoteFault} (hFaults : shelf.faults = fault :: faults) :
    area.delete shelf key =
      ⟨none, area.reported "delete" key (.remote fault), shelf.withoutFault⟩ := by
  simp [delete, Shelf.delete, hFaults]

theorem save_shelf {area : Area F} {shelf : Shelf} {record : Parked F} :
    (area.save shelf record).shelf =
      (shelf.upsert area.container record.key (Parked.codec.encode record)).2 := by
  simp only [save]
  split <;> rfl

theorem delete_shelf {area : Area F} {shelf : Shelf} {key : String} :
    (area.delete shelf key).shelf = (shelf.delete area.container key).2 := by
  simp only [delete]
  split
  · rfl
  · split <;> rfl
  · rfl

/-- A fetch makes one call, unless it asks for no key. -/
theorem fetch_shelf {area : Area F} {shelf : Shelf} {keys : KeySet} :
    (area.fetch shelf keys).2 =
      if keys.isEmpty then shelf else (shelf.fetch area.container keys).2 := by
  simp only [fetch]
  split
  · rfl
  · split
    · rfl
    · split <;> rfl

/-- A fetch of some key is counted. -/
theorem fetch_fetches {area : Area F} {shelf : Shelf} {keys : KeySet}
    (hSome : ¬ keys.isEmpty = true) :
    (area.fetch shelf keys).2.fetches = shelf.fetches + 1 := by
  rw [fetch_shelf, if_neg hSome, Shelf.fetch_fetches]

@[simp] theorem save_fetches {area : Area F} {shelf : Shelf} {record : Parked F} :
    (area.save shelf record).shelf.fetches = shelf.fetches := by
  rw [save_shelf, Shelf.upsert_fetches]

@[simp] theorem delete_fetches {area : Area F} {shelf : Shelf} {key : String} :
    (area.delete shelf key).shelf.fetches = shelf.fetches := by
  rw [delete_shelf, Shelf.delete_fetches]

/-- Without a scripted fault, a saved record is stored under its key. -/
theorem get?_save_of_calm {area : Area F} {shelf : Shelf} {record : Parked F}
    (hCalm : shelf.faults = []) :
    (area.save shelf record).shelf.get? area.container record.key =
      some (Parked.codec.encode record) := by
  rw [save_shelf, Shelf.get?_upsert hCalm, if_pos ⟨rfl, rfl⟩]

/-- Without a scripted fault, there is none after a save. -/
theorem save_faults_of_calm {area : Area F} {shelf : Shelf} {record : Parked F}
    (hCalm : shelf.faults = []) : (area.save shelf record).shelf.faults = [] := by
  rw [save_shelf, Shelf.upsert_faults_of_calm hCalm]

/-- Saving leaves the other records alone, whether it succeeds or not. -/
theorem save_get?_ne {area : Area F} {shelf : Shelf} {record : Parked F} {key : String}
    (hNe : key ≠ record.key) :
    (area.save shelf record).shelf.get? area.container key = shelf.get? area.container key := by
  rw [save_shelf, Shelf.get?_upsert_ne hNe]

/-- Deleting leaves the other records alone, whether it succeeds or not. -/
theorem delete_get?_ne {area : Area F} {shelf : Shelf} {key other : String} (hNe : other ≠ key) :
    (area.delete shelf key).shelf.get? area.container other = shelf.get? area.container other := by
  rw [delete_shelf, Shelf.get?_delete_ne hNe]

/-- Without a scripted fault, a deleted record is gone, and no fault is left behind. -/
theorem delete_of_calm {area : Area F} {shelf : Shelf} {key : String} (hCalm : shelf.faults = []) :
    (area.delete shelf key).shelf.get? area.container key = none ∧
      (area.delete shelf key).shelf.faults = [] := by
  rw [delete_shelf]
  refine ⟨?_, Shelf.delete_faults_of_calm hCalm⟩
  rw [Shelf.get?_delete hCalm, if_pos ⟨rfl, rfl⟩]

/-- A fetch leaves all records alone. -/
theorem fetch_get? {area : Area F} {shelf : Shelf} {keys : KeySet} {name key : String} :
    (area.fetch shelf keys).2.get? name key = shelf.get? name key := by
  have hContainers : (area.fetch shelf keys).2.containers = shelf.containers := by
    rw [fetch_shelf]
    split
    · rfl
    · exact Shelf.fetch_containers
  unfold Shelf.get? Shelf.container
  rw [hContainers]

end Area

end CatalogSync
