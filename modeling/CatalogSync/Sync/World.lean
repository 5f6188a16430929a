import CatalogSync.Remote.Basic
import CatalogSync.Staging.Shelf

/-!
# The world around an engine

What an engine talks to: the remote service and the shelf of parked drafts, and beside them the
notes that hooks and resolvers keep between their calls. Hooks and resolvers are functions on this
world, so whether one of them touches a collaborator is a statement about what it returns.
-/

namespace CatalogSync

/-- The collaborators of an engine, and what its hooks remember. -/
structure World (F : Family) (σ : Type) where
  /-- The remote service. -/
  remote : Remote F
  /-- The shelf of parked drafts. -/
  shelf : Shelf := {}
  /-- What hooks and resolvers remember. -/
  notes : σ

namespace World

variable {F : Family} {σ : Type}

/-- The world with another remote service. -/
def withRemote (world : World F σ) (remote : Remote F) : World F σ := { world with remote }

/-- The world with another shelf. -/
def withShelf (world : World F σ) (shelf : Shelf) : World F σ := { world with shelf }

/-- The world with other notes. -/
def withNotes (world : World F σ) (notes : σ) : World F σ := { world with notes }

end World

/-- Tells which of a set of keys exist. -/
abbrev Resolver (F : Family) (σ : Type) : Type :=
  World F σ → KeySet → Except RemoteFault KeySet × World F σ

/-- The resolver that asks the remote service itself. -/
def World.askRemote {F : Family} {σ : Type} : Resolver F σ := fun world keys =>
  (.ok (world.remote.resolve keys).1, world.withRemote (world.remote.resolve keys).2)

end CatalogSync
