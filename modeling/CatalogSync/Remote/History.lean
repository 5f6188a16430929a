import CatalogSync.Remote.Basic

/-!
# What the log of a remote tells

The log holds every call with its answer, so the contents of the service at any moment can be worked
out from the contents at an earlier one and the calls made in between.

## Main results

* `Remote.create_write`, `Remote.update_write`: a call writes what its entry in the log tells.
* `contentsAfter_append_queries`: queries write nothing.
-/

namespace CatalogSync

variable {F : Family}

namespace Call

/-- Whether a call writes nothing, whatever it answers. -/
def isQuery : Call F → Bool
  | .create .. | .update .. => false
  | _ => true

/-- The contents of a service after a call that answered what the log tells. -/
def write (resources : KeyMap F.Resource) : Call F → KeyMap F.Resource
  | .create draft (.ok (some resource)) => resources.insert (F.keyOf draft) resource
  | .update old _ (.ok updated) => resources.insert (F.key old) updated
  | _ => resources

/-- Whether a call is what a draft asks for: its creation, or the update of a resource that differs
from it. -/
def serves (draft : F.Draft) : Call F → Prop
  | .create kept _ => kept = draft
  | .update old actions _ => F.diff old draft = .ok actions
  | _ => False

theorem write_of_isQuery {resources : KeyMap F.Resource} {call : Call F}
    (hQuery : call.isQuery = true) : call.write resources = resources := by
  cases call with
  | create => cases hQuery
  | update => cases hQuery
  | _ => rfl

end Call

/-- The contents of a service after a number of calls. -/
def contentsAfter (resources : KeyMap F.Resource) (calls : List (Call F)) : KeyMap F.Resource :=
  calls.foldl Call.write resources

variable {resources : KeyMap F.Resource} {calls : List (Call F)}

theorem contentsAfter_append {more : List (Call F)} :
    contentsAfter resources (calls ++ more) = contentsAfter (contentsAfter resources calls) more :=
  List.foldl_append

/-- Queries write nothing. -/
theorem contentsAfter_append_queries {queries : List (Call F)}
    (hQueries : ∀ call ∈ queries, call.isQuery = true) :
    contentsAfter resources (calls ++ queries) = contentsAfter resources calls := by
  rw [contentsAfter_append]
  generalize contentsAfter resources calls = before
  induction queries with
  | nil => rfl
  | cons call rest ih =>
      show contentsAfter (call.write before) rest = before
      rw [Call.write_of_isQuery (hQueries call (List.mem_cons_self ..))]
      exact ih fun other hOther => hQueries other (List.mem_cons_of_mem _ hOther)

namespace Remote

/-- The entry that a creation leaves in the log. -/
def creation (remote : Remote F) (draft : F.Draft) : Call F :=
  .create draft (remote.createAnswer draft)

/-- The entry that an update leaves in the log. -/
def change (remote : Remote F) (old : F.Resource) (actions : List F.Action) : Call F :=
  .update old actions (remote.updateAnswer old actions)

/-- A creation writes what its entry in the log tells. -/
theorem create_write {remote : Remote F} {draft : F.Draft} :
    (remote.create draft).2.resources = (remote.creation draft).write remote.resources := by
  have hAnswer : (remote.create draft).1 = remote.createAnswer draft := rfl
  rw [create_resources, creation, hAnswer]
  cases remote.createAnswer draft with
  | error fault => rfl
  | ok answer => cases answer <;> rfl

/-- An update writes what its entry in the log tells. -/
theorem update_write {remote : Remote F} {old : F.Resource} {actions : List F.Action} :
    (remote.update old actions).2.resources =
      (remote.change old actions).write remote.resources := by
  have hAnswer : (remote.update old actions).1 = remote.updateAnswer old actions := rfl
  rw [update_resources, change, hAnswer]
  cases remote.updateAnswer old actions <;> rfl

end Remote

end CatalogSync
