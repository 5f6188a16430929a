import CatalogSync.Data.KeyMap
import CatalogSync.Json.Basic
import CatalogSync.Remote.Fault

/-!
# A shelf of named containers

A `Shelf` keeps JSON values in containers, each value under a key of its container. Faults can be
scripted for the next calls; the oldest one meets the next call, whatever it asks for. Looking
directly into a container never fails.

## Main results

* `get?_upsert`, `get?_delete`: a call that succeeds writes the entry it addresses and no other.
* `get?_upsert_ne`, `get?_delete_ne`: a call leaves all other entries alone, whether it succeeds or
  not.
-/

namespace CatalogSync

/-- A store of JSON values in named containers. -/
structure Shelf where
  /-- The values by container and key. -/
  containers : KeyMap (KeyMap Json) := KeyMap.empty
  /-- Faults for the next calls, the oldest first. -/
  faults : List RemoteFault := []
  /-- How many fetches were made, failed ones included. -/
  fetches : Nat := 0

namespace Shelf

/-! ## Direct access -/

/-- The values of a container by key. -/
def container (shelf : Shelf) (name : String) : KeyMap Json :=
  (shelf.containers.get? name).getD KeyMap.empty

/-- The value under a key of a container. -/
def get? (shelf : Shelf) (name key : String) : Option Json := (shelf.container name).get? key

/-- The number of values in a container. -/
def size (shelf : Shelf) (name : String) : Nat := (shelf.container name).size

/-- Scripts a fault for the first call that no earlier fault meets. -/
def failNext (shelf : Shelf) (fault : RemoteFault) : Shelf :=
  { shelf with faults := shelf.faults ++ [fault] }

/-- The shelf with other values in one container. -/
def withContainer (shelf : Shelf) (name : String) (values : KeyMap Json) : Shelf :=
  { shelf with containers := shelf.containers.insert name values }

/-- The shelf after a fault has met a call. -/
def withoutFault (shelf : Shelf) : Shelf := { shelf with faults := shelf.faults.tail }

/-! ## Calls -/

/-- Writes a value under a key of a container and answers that value. -/
def upsert (shelf : Shelf) (name key : String) (value : Json) :
    Except RemoteFault Json × Shelf :=
  match shelf.faults with
  | fault :: _ => (.error fault, shelf.withoutFault)
  | [] => (.ok value, shelf.withContainer name ((shelf.container name).insert key value))

/-- Fetches the values under a set of keys of a container, by increasing key. -/
def fetch (shelf : Shelf) (name : String) (keys : KeySet) :
    Except RemoteFault (List (String × Json)) × Shelf :=
  match shelf.faults with
  | fault :: _ => (.error fault, { shelf.withoutFault with fetches := shelf.fetches + 1 })
  | [] =>
      (.ok (keys.toList.filterMap fun key => (shelf.get? name key).map (key, ·)),
        { shelf with fetches := shelf.fetches + 1 })

/-- Removes the value under a key of a container and answers it. -/
def delete (shelf : Shelf) (name key : String) : Except RemoteFault (Option Json) × Shelf :=
  match shelf.faults with
  | fault :: _ => (.error fault, shelf.withoutFault)
  | [] =>
      (.ok (shelf.get? name key),
        shelf.withContainer name ((shelf.container name).erase key))

/-! ## What a call writes -/

theorem container_withContainer {shelf : Shelf} {name other : String} {values : KeyMap Json} :
    (shelf.withContainer name values).container other =
      if other = name then values else shelf.container other := by
  unfold container withContainer
  rw [KeyMap.get?_insert]
  split <;> rfl

theorem get?_withContainer {shelf : Shelf} {name other key : String} {values : KeyMap Json} :
    (shelf.withContainer name values).get? other key =
      if other = name then values.get? key else shelf.get? other key := by
  rw [get?, container_withContainer]
  split <;> rfl

/-- Without a scripted fault, writing changes one entry of one container. -/
theorem get?_upsert {shelf : Shelf} {name key otherName otherKey : String} {value : Json}
    (hCalm : shelf.faults = []) :
    (shelf.upsert name key value).2.get? otherName otherKey =
      if otherName = name ∧ otherKey = key then some value
      else shelf.get? otherName otherKey := by
  unfold upsert
  rw [hCalm]
  simp only [get?_withContainer]
  by_cases hName : otherName = name
  · subst hName
    rw [if_pos rfl, KeyMap.get?_insert]
    simp [get?]
  · simp [hName]

/-- Without a scripted fault, deleting clears one entry of one container. -/
theorem get?_delete {shelf : Shelf} {name key otherName otherKey : String}
    (hCalm : shelf.faults = []) :
    (shelf.delete name key).2.get? otherName otherKey =
      if otherName = name ∧ otherKey = key then none
      else shelf.get? otherName otherKey := by
  unfold delete
  rw [hCalm]
  simp only [get?_withContainer]
  by_cases hName : otherName = name
  · subst hName
    by_cases hKey : otherKey = key
    · subst hKey
      simp
    · simp [get?, hKey, KeyMap.get?_erase_ne hKey]
  · simp [hName]

/-- Writing leaves the other entries of the container alone, whether it succeeds or not. -/
theorem get?_upsert_ne {shelf : Shelf} {name key other : String} {value : Json}
    (hNe : other ≠ key) : (shelf.upsert name key value).2.get? name other = shelf.get? name other := by
  cases hFaults : shelf.faults with
  | nil => rw [get?_upsert hFaults, if_neg fun hSame => hNe hSame.2]
  | cons fault faults =>
      simp only [upsert, hFaults]
      rfl

/-- Deleting leaves the other entries of the container alone, whether it succeeds or not. -/
theorem get?_delete_ne {shelf : Shelf} {name key other : String} (hNe : other ≠ key) :
    (shelf.delete name key).2.get? name other = shelf.get? name other := by
  cases hFaults : shelf.faults with
  | nil => rw [get?_delete hFaults, if_neg fun hSame => hNe hSame.2]
  | cons fault faults =>
      simp only [delete, hFaults]
      rfl

/-- A shelf without scripted faults has none after a write. -/
theorem upsert_faults_of_calm {shelf : Shelf} {name key : String} {value : Json}
    (hCalm : shelf.faults = []) : (shelf.upsert name key value).2.faults = [] := by
  simp only [upsert, hCalm]
  exact hCalm

/-- A shelf without scripted faults has none after a deletion. -/
theorem delete_faults_of_calm {shelf : Shelf} {name key : String} (hCalm : shelf.faults = []) :
    (shelf.delete name key).2.faults = [] := by
  simp only [delete, hCalm]
  exact hCalm

theorem fetch_containers {shelf : Shelf} {name : String} {keys : KeySet} :
    (shelf.fetch name keys).2.containers = shelf.containers := by
  unfold fetch
  split <;> rfl

/-- A fetch is counted, whether it succeeds or not. -/
@[simp] theorem fetch_fetches {shelf : Shelf} {name : String} {keys : KeySet} :
    (shelf.fetch name keys).2.fetches = shelf.fetches + 1 := by
  unfold fetch
  split <;> rfl

@[simp] theorem upsert_fetches {shelf : Shelf} {name key : String} {value : Json} :
    (shelf.upsert name key value).2.fetches = shelf.fetches := by
  unfold upsert
  split <;> rfl

@[simp] theorem delete_fetches {shelf : Shelf} {name key : String} :
    (shelf.delete name key).2.fetches = shelf.fetches := by
  unfold delete
  split <;> rfl

end Shelf

end CatalogSync
