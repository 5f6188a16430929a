import CatalogSync.Family
import CatalogSync.Remote.Fault

/-!
# The remote service

A `Remote` holds the resources of one family by key. It looks resources up by keys, fetches one by
its identifier, creates a resource from a draft, and updates a resource under the guard of its
version. Every call is entered in a log together with its answer, and calls can be scripted to fail.

Each operation comes as two functions: the answer it gives in a state, and the operation, which
returns that answer together with the next state.

## Main results

* `create_resources`, `update_resources`: which entry a call writes, told from its answer.
* `lookup_resources`, `fetch_resources`, `resolve_resources`: the other calls write nothing.
* `create_keys`, `update_keys`: only a creation adds a key.
-/

namespace CatalogSync

/-- An answer prepared for a call, given once and in place of the real one. -/
inductive Scripted where
  /-- The call fails. -/
  | fail (fault : RemoteFault)
  /-- The call succeeds without a resource. -/
  | empty
deriving DecidableEq, Repr

/-- A call of the remote service and what it answered. -/
inductive Call (F : Family) where
  /-- Resources were looked up by their keys. -/
  | lookup (keys : KeySet) (answer : Except RemoteFault (List F.Resource))
  /-- A resource was fetched by its identifier. -/
  | fetch (id : String) (answer : Except RemoteFault (Option F.Resource))
  /-- A resource was to be created. -/
  | create (draft : F.Draft) (answer : Except RemoteFault (Option F.Resource))
  /-- Actions were submitted for a resource. -/
  | update (resource : F.Resource) (actions : List F.Action)
      (answer : Except RemoteFault F.Resource)
  /-- The service was asked which keys exist. -/
  | resolve (keys : KeySet)

/-- A remote service for the resources of one family. -/
structure Remote (F : Family) where
  /-- The identifier of the n-th resource that the service creates, counted from zero. Only the
  service knows them in advance, so they should differ from every other text in use. -/
  ids : Nat → String
  /-- How many identifiers have been given out. -/
  issued : Nat := 0
  /-- The resources by key. -/
  resources : KeyMap F.Resource := KeyMap.empty
  /-- Faults for the next look-ups. -/
  lookupFaults : List RemoteFault := []
  /-- Answers for the next fetches. -/
  fetchScript : List Scripted := []
  /-- Answers for the next creations. -/
  createScript : List Scripted := []
  /-- Faults for the next updates. -/
  updateFaults : List RemoteFault := []
  /-- All calls so far, the earliest first. -/
  log : List (Call F) := []

namespace Remote

variable {F : Family}

/-! ## Direct access -/

/-- Puts a resource under its key, replacing any other. -/
def insert (remote : Remote F) (resource : F.Resource) : Remote F :=
  { remote with resources := remote.resources.insert (F.key resource) resource }

/-- Takes the resource under a key away. -/
def remove (remote : Remote F) (key : String) : Remote F :=
  { remote with resources := remote.resources.erase key }

/-! ## Scripted answers -/

/-- Scripts a fault for the next look-up that no earlier one is scripted for. -/
def failLookup (remote : Remote F) (fault : RemoteFault) : Remote F :=
  { remote with lookupFaults := remote.lookupFaults ++ [fault] }

/-- Scripts the answer of a fetch. -/
def scriptFetch (remote : Remote F) (answer : Scripted) : Remote F :=
  { remote with fetchScript := remote.fetchScript ++ [answer] }

/-- Scripts the answer of a creation. -/
def scriptCreate (remote : Remote F) (answer : Scripted) : Remote F :=
  { remote with createScript := remote.createScript ++ [answer] }

/-- Scripts a fault for an update. -/
def failUpdate (remote : Remote F) (fault : RemoteFault) : Remote F :=
  { remote with updateFaults := remote.updateFaults ++ [fault] }

/-! ## Calls -/

/-- What a look-up by keys answers: the resources that exist, by increasing key. -/
def lookupAnswer (remote : Remote F) (keys : KeySet) : Except RemoteFault (List F.Resource) :=
  match remote.lookupFaults with
  | fault :: _ => .error fault
  | [] => .ok (remote.resources.select keys)

/-- Looks resources up by their keys. -/
def lookup (remote : Remote F) (keys : KeySet) :
    Except RemoteFault (List F.Resource) × Remote F :=
  (remote.lookupAnswer keys,
    { remote with
      lookupFaults := remote.lookupFaults.tail
      log := remote.log ++ [.lookup keys (remote.lookupAnswer keys)] })

/-- What a fetch answers: the first resource, by key, that has the identifier. -/
def fetchAnswer (remote : Remote F) (id : String) : Except RemoteFault (Option F.Resource) :=
  match remote.fetchScript with
  | .fail fault :: _ => .error fault
  | .empty :: _ => .ok none
  | [] => .ok (remote.resources.values.find? fun resource => F.id resource == id)

/-- Fetches a resource by its identifier. -/
def fetch (remote : Remote F) (id : String) :
    Except RemoteFault (Option F.Resource) × Remote F :=
  (remote.fetchAnswer id,
    { remote with
      fetchScript := remote.fetchScript.tail
      log := remote.log ++ [.fetch id (remote.fetchAnswer id)] })

/-- What a creation answers. A draft needs a key that no resource has. -/
def createAnswer (remote : Remote F) (draft : F.Draft) :
    Except RemoteFault (Option F.Resource) :=
  match remote.createScript with
  | .fail fault :: _ => .error fault
  | .empty :: _ => .ok none
  | [] =>
      match F.draftKey draft with
      | none => .error (.validation "draft has no key")
      | some key =>
          if remote.resources.contains key then
            .error (.validation s!"a resource with key '{key}' already exists")
          else .ok (some (F.materialize draft (remote.ids remote.issued)))

/-- Creates a resource from a draft and puts it under the key of the draft. -/
def create (remote : Remote F) (draft : F.Draft) :
    Except RemoteFault (Option F.Resource) × Remote F :=
  (remote.createAnswer draft,
    { remote with
      createScript := remote.createScript.tail
      log := remote.log ++ [.create draft (remote.createAnswer draft)]
      resources :=
        match remote.createAnswer draft with
        | .ok (some resource) => remote.resources.insert (F.keyOf draft) resource
        | _ => remote.resources
      issued :=
        match remote.createAnswer draft with
        | .ok (some _) => remote.issued + 1
        | _ => remote.issued })

/-- What an update answers. The resource has to be in the version that the service holds. -/
def updateAnswer (remote : Remote F) (resource : F.Resource) (actions : List F.Action) :
    Except RemoteFault F.Resource :=
  match remote.updateFaults with
  | fault :: _ => .error fault
  | [] =>
      match remote.resources.get? (F.key resource) with
      | none => .error (.notFound (F.id resource))
      | some stored =>
          if F.version stored = F.version resource then .ok (F.apply stored actions)
          else .error (.conflict (F.version resource) (F.version stored))

/-- Applies actions to a resource. -/
def update (remote : Remote F) (resource : F.Resource) (actions : List F.Action) :
    Except RemoteFault F.Resource × Remote F :=
  (remote.updateAnswer resource actions,
    { remote with
      updateFaults := remote.updateFaults.tail
      log := remote.log ++ [.update resource actions (remote.updateAnswer resource actions)]
      resources :=
        match remote.updateAnswer resource actions with
        | .ok updated => remote.resources.insert (F.key resource) updated
        | .error _ => remote.resources })

/-- The keys that exist among those asked for. -/
def existing (remote : Remote F) (keys : KeySet) : KeySet :=
  keys.filter remote.resources.contains

/-- Asks which keys exist. -/
def resolve (remote : Remote F) (keys : KeySet) : KeySet × Remote F :=
  (remote.existing keys, { remote with log := remote.log ++ [.resolve keys] })

/-! ## What the log shows -/

/-- The key sets of all look-ups, the earliest first. -/
def lookups (remote : Remote F) : List KeySet :=
  remote.log.filterMap fun
    | .lookup keys _ => some keys
    | _ => none

/-- The key and the actions of all updates, the earliest first. -/
def submitted (remote : Remote F) : List (String × List F.Action) :=
  remote.log.filterMap fun
    | .update resource actions _ => some (F.key resource, actions)
    | _ => none

/-- How many fetches were made. -/
def fetches (remote : Remote F) : Nat :=
  remote.log.countP fun
    | .fetch .. => true
    | _ => false

/-- How many creations were asked for. -/
def creates (remote : Remote F) : Nat :=
  remote.log.countP fun
    | .create .. => true
    | _ => false

/-- How many updates were submitted. -/
def updates (remote : Remote F) : Nat := remote.submitted.length

/-- How often the service was asked which keys exist. -/
def resolutions (remote : Remote F) : Nat :=
  remote.log.countP fun
    | .resolve .. => true
    | _ => false

/-! ## What a call writes -/

@[simp] theorem lookup_resources {remote : Remote F} {keys : KeySet} :
    (remote.lookup keys).2.resources = remote.resources := rfl

@[simp] theorem fetch_resources {remote : Remote F} {id : String} :
    (remote.fetch id).2.resources = remote.resources := rfl

@[simp] theorem resolve_resources {remote : Remote F} {keys : KeySet} :
    (remote.resolve keys).2.resources = remote.resources := rfl

@[simp] theorem mem_existing {remote : Remote F} {keys : KeySet} {key : String} :
    key ∈ remote.existing keys ↔ key ∈ keys ∧ key ∈ remote.resources.keys := by
  rw [existing, KeySet.mem_filter, KeyMap.contains_iff]

/-- A creation that answers a resource puts it under the key of the draft; others write nothing. -/
theorem create_resources {remote : Remote F} {draft : F.Draft} :
    (remote.create draft).2.resources =
      match (remote.create draft).1 with
      | .ok (some resource) => remote.resources.insert (F.keyOf draft) resource
      | _ => remote.resources := rfl

/-- A creation that answers a resource gives an identifier out; others give none. -/
theorem create_issued {remote : Remote F} {draft : F.Draft} :
    (remote.create draft).2.issued =
      match (remote.create draft).1 with
      | .ok (some _) => remote.issued + 1
      | _ => remote.issued := rfl

/-- An update that answers a resource puts it under the key addressed; others write nothing. -/
theorem update_resources {remote : Remote F} {resource : F.Resource} {actions : List F.Action} :
    (remote.update resource actions).2.resources =
      match (remote.update resource actions).1 with
      | .ok updated => remote.resources.insert (F.key resource) updated
      | .error _ => remote.resources := rfl

/-- A creation succeeds only for a draft with a key that no resource has. -/
theorem fresh_of_createAnswer {remote : Remote F} {draft : F.Draft} {resource : F.Resource}
    (hOk : remote.createAnswer draft = .ok (some resource)) :
    ∃ key id, F.draftKey draft = some key ∧ ¬ key ∈ remote.resources.keys ∧
      resource = F.materialize draft id := by
  unfold createAnswer at hOk
  split at hOk
  · cases hOk
  · cases hOk
  · split at hOk
    · cases hOk
    · rename_i key hKey
      split at hOk
      · cases hOk
      · rename_i hFresh
        cases hOk
        rw [KeyMap.contains_iff] at hFresh
        exact ⟨key, _, hKey, hFresh, rfl⟩

/-- Without scripted answers a draft with a new key is created. -/
theorem createAnswer_of_fresh {remote : Remote F} {draft : F.Draft} {key : String}
    (hScript : remote.createScript = []) (hKey : F.draftKey draft = some key)
    (hFresh : remote.resources.get? key = none) :
    remote.createAnswer draft = .ok (some (F.materialize draft (remote.ids remote.issued))) := by
  have hAbsent : remote.resources.contains key = false := by
    rw [KeyMap.contains, hFresh]
    rfl
  simp [createAnswer, hScript, hKey, hAbsent]

/-- A creation that answers a resource adds the key of the draft; others add none. -/
theorem create_keys {remote : Remote F} {draft : F.Draft} :
    (remote.create draft).2.resources.keys =
      match (remote.create draft).1 with
      | .ok (some _) => remote.resources.keys.insert (F.keyOf draft)
      | _ => remote.resources.keys := by
  rw [create_resources]
  split <;> rename_i hAnswer
  · rw [KeyMap.keys_insert]
  · rfl

/-- An update succeeds only on a resource that the service holds in the same version. -/
theorem stored_of_updateAnswer {remote : Remote F} {resource updated : F.Resource}
    {actions : List F.Action} (hOk : remote.updateAnswer resource actions = .ok updated) :
    ∃ stored, remote.resources.get? (F.key resource) = some stored ∧
      F.version stored = F.version resource ∧ updated = F.apply stored actions := by
  unfold updateAnswer at hOk
  split at hOk
  · cases hOk
  · split at hOk
    · cases hOk
    · rename_i stored hStored
      split at hOk
      · rename_i hVersion
        cases hOk
        exact ⟨stored, hStored, hVersion, rfl⟩
      · cases hOk

/-- Without scripted faults a resource is updated in the version that the service holds. -/
theorem updateAnswer_of_stored {remote : Remote F} {resource : F.Resource}
    {actions : List F.Action} (hFaults : remote.updateFaults = [])
    (hStored : remote.resources.get? (F.key resource) = some resource) :
    remote.updateAnswer resource actions = .ok (F.apply resource actions) := by
  simp [updateAnswer, hFaults, hStored]

/-- An update adds no key. -/
@[simp] theorem update_keys {remote : Remote F} {resource : F.Resource}
    {actions : List F.Action} :
    (remote.update resource actions).2.resources.keys = remote.resources.keys := by
  rw [update_resources]
  split
  · rename_i updated hOk
    obtain ⟨stored, hStored, -, -⟩ := stored_of_updateAnswer hOk
    rw [KeyMap.keys_insert]
    exact KeySet.insert_of_mem (KeyMap.mem_keys_iff.mpr ⟨stored, hStored⟩)
  · rfl

end Remote

end CatalogSync
