import CatalogSync.Json.Codec
import CatalogSync.Refusal

/-!
# Families of resources

A family is one kind of remote resource together with the drafts that describe its desired state
and the actions that change it. The engine, the remote and the staging area work for any family.
-/

namespace CatalogSync

/-- One kind of remote resource: its drafts, its actions, and how they relate. -/
structure Family where
  /-- The desired state of one resource. -/
  Draft : Type
  /-- The current state of one resource as the remote holds it. -/
  Resource : Type
  /-- A single change of a resource. -/
  Action : Type
  /-- What one resource is called in messages. -/
  name : String
  /-- What several resources are called in messages. -/
  plural : String
  /-- The key that matches a draft to a resource, when it is set. -/
  draftKey : Draft → Option String
  /-- The keys of other resources that a draft refers to. -/
  references : Draft → KeySet
  /-- The identifier that the remote gave a resource. -/
  id : Resource → String
  /-- The key that matches a resource to a draft. -/
  key : Resource → String
  /-- The version of a resource, which every update advances. -/
  version : Resource → UInt64
  /-- The resource that the remote holds after it created a draft under an identifier. -/
  materialize : Draft → String → Resource
  /-- The actions that bring a resource into the state of a draft. -/
  diff : Resource → Draft → Except Refusal (List Action)
  /-- The resource after a list of actions, in its next version. -/
  apply : Resource → List Action → Resource
  /-- How drafts are written. -/
  drafts : Codec Draft
  /-- How resources are written. -/
  resources : Codec Resource
  /-- How actions are written. -/
  actions : Codec Action
  /-- A draft that refers to other resources is read back as it was written, so it can be staged. -/
  restores : ∀ draft, ¬ (references draft).isEmpty = true →
    drafts.decode (drafts.encode draft) = some draft

namespace Family

/-- The staging container that holds the parked drafts of the family. -/
def stagingContainer (F : Family) : String := "draftsync.deferred." ++ F.plural

/-- The key of a draft, empty when it is not set. -/
def keyOf (F : Family) (draft : F.Draft) : String := (F.draftKey draft).getD ""

theorem keyOf_of_draftKey {F : Family} {draft : F.Draft} {key : String}
    (hSet : F.draftKey draft = some key) : F.keyOf draft = key :=
  congrArg (Option.getD · "") hSet

end Family

end CatalogSync
