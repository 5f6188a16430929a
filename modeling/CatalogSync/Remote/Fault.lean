/-!
# Faults of remote collaborators

What the remote service, the staging store or the resolver of references answers instead of a
result.
-/

namespace CatalogSync

/-- Why a remote call failed. -/
inductive RemoteFault where
  /-- The content of the request was refused. -/
  | validation (message : String)
  /-- The request was based on another version than the current one. -/
  | conflict (expected current : UInt64)
  /-- The addressed resource does not exist. -/
  | notFound (message : String)
  /-- Any other failure. -/
  | other (message : String)
deriving DecidableEq, Repr

namespace RemoteFault

/-- The text shown for a fault. -/
def message : RemoteFault → String
  | .validation message => s!"validation failed: {message}"
  | .conflict expected current =>
      s!"concurrent modification: expected version {expected}, current version {current}"
  | .notFound message => s!"not found: {message}"
  | .other message => s!"remote error: {message}"

/-- Whether somebody else changed the resource in the meantime. -/
def isConflict : RemoteFault → Bool
  | .conflict _ _ => true
  | _ => false

end RemoteFault

end CatalogSync
