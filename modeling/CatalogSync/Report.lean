import CatalogSync.Refusal
import CatalogSync.Remote.Fault

/-!
# Reports of failures

A draft that cannot be synced never stops a run: the failure is reported as a text for people
together with its cause.
-/

namespace CatalogSync

/-- What lies behind a failed draft. -/
inductive Cause where
  /-- The draft cannot be processed at all. -/
  | invalidDraft (reason : String)
  /-- A remote collaborator failed. -/
  | remote (fault : RemoteFault)
  /-- The difference to the resource cannot be written as actions. -/
  | refused (refusal : Refusal)
  /-- A staged record does not have the form of a parked draft. -/
  | unreadable
deriving DecidableEq, Repr

namespace Cause

/-- The text shown for a cause. -/
def message : Cause → String
  | .invalidDraft reason => s!"invalid draft: {reason}"
  | .remote fault => fault.message
  | .refused refusal => refusal.message
  | .unreadable => "codec error"

/-- The fault of a remote collaborator, when that is the cause. -/
def fault? : Cause → Option RemoteFault
  | .remote fault => some fault
  | _ => none

end Cause

/-- A failure as it is reported. -/
structure Report where
  /-- What failed, for people to read. -/
  message : String
  /-- What lies behind it. -/
  cause : Cause
deriving DecidableEq, Repr

end CatalogSync
