/-!
# Phases of a draft

Where a draft stands on its way through the engine.
-/

namespace CatalogSync

/-- Where a draft stands. -/
inductive Phase where
  /-- Handed to the engine. -/
  | received
  /-- Found to have a key. -/
  | validated
  /-- A resource with the key of the draft exists. -/
  | matched
  /-- No resource has the key of the draft. -/
  | unmatched
  /-- Parked until its references exist. -/
  | deferred
  /-- A resource was created from it. -/
  | created
  /-- The resource was updated. -/
  | updated
  /-- The resource needed no change. -/
  | upToDate
  /-- The draft could not be synced. -/
  | failed
  /-- The hook before creation dropped the draft. -/
  | skipped
deriving DecidableEq, Repr

namespace Phase

/-- Whether the engine is done with the draft for now. -/
def isTerminal : Phase → Bool
  | .deferred | .created | .updated | .upToDate | .failed | .skipped => true
  | .received | .validated | .matched | .unmatched => false

/-- Whether the remote now holds what the draft describes. -/
def isSuccess : Phase → Bool
  | .created | .updated | .upToDate => true
  | _ => false

/-- Whether a draft that is processed can end in the phase. -/
def isEnd : Phase → Bool
  | .created | .updated | .upToDate | .failed | .skipped => true
  | _ => false

end Phase

end CatalogSync
