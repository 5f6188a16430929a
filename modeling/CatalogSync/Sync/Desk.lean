import CatalogSync.Staging.Area
import CatalogSync.Sync.Options
import CatalogSync.Sync.Tally

/-!
# The desk of an engine

While drafts are processed, an engine changes the world, counts outcomes and keeps a journal. The
journal holds everything that is announced or reported, every record that is parked, and for every
draft the moment at which it is submitted and the moment at which it ends, each with the remote as
it was then.

## Main results

* `fail_world`, `warn_world`, `failMany_world`: reports leave the world alone.
* `fail_tally`: a report alone counts nothing.
-/

namespace CatalogSync

/-- An entry of the journal. -/
inductive Event (F : Family) where
  /-- A failure was reported. -/
  | failure (report : Report)
  /-- A warning was reported. -/
  | warning (message : String)
  /-- The resolver was asked which of the keys exist. -/
  | resolving (keys : KeySet)
  /-- The hook before creation was asked about a draft, and answered the draft to create, if any. -/
  | creating (draft : F.Draft) (answer : Option F.Draft)
  /-- The hook before an update was asked about the actions for a draft. -/
  | updating (draft : F.Draft) (old : F.Resource) (actions : List F.Action)
  /-- A created resource was announced. -/
  | created (resource : F.Resource)
  /-- An updated resource was announced with the actions submitted. -/
  | updated (resource : F.Resource) (actions : List F.Action)
  /-- A draft was parked. -/
  | parked (record : Parked F)
  /-- A call that creates or updates the resource of a draft is about to be made. -/
  | submitting (draft : F.Draft) (remote : Remote F)
  /-- A draft ended in a phase. -/
  | ended (draft : F.Draft) (phase : Phase) (remote : Remote F)

/-- What an engine works on while it processes drafts. -/
structure Desk (F : Family) (σ : Type) where
  /-- The collaborators. -/
  world : World F σ
  /-- The outcomes so far. -/
  tally : Tally := {}
  /-- What happened so far, the earliest first. -/
  journal : List (Event F) := []

namespace Desk

variable {F : Family} {σ : Type}

/-- The desk with another world. -/
def withWorld (desk : Desk F σ) (world : World F σ) : Desk F σ := { desk with world }

/-- The desk with another remote. -/
def withRemote (desk : Desk F σ) (remote : Remote F) : Desk F σ :=
  desk.withWorld (desk.world.withRemote remote)

/-- The desk with another shelf. -/
def withShelf (desk : Desk F σ) (shelf : Shelf) : Desk F σ :=
  desk.withWorld (desk.world.withShelf shelf)

/-- The desk with another tally. -/
def withTally (desk : Desk F σ) (tally : Tally) : Desk F σ := { desk with tally }

/-- Enters an event into the journal. -/
def enter (desk : Desk F σ) (event : Event F) : Desk F σ :=
  { desk with journal := desk.journal ++ [event] }

/-- Enters an event into the journal if it is asked for. -/
def enterIf (desk : Desk F σ) (asked : Bool) (event : Event F) : Desk F σ :=
  if asked then desk.enter event else desk

/-- Reports a failure. -/
def fail (desk : Desk F σ) (options : Options F σ) (message : String) (cause : Cause) :
    Desk F σ :=
  desk.enterIf options.reportsFailures (.failure ⟨message, cause⟩)

/-- Reports a failure that ends a number of drafts, and counts them. -/
def failMany (desk : Desk F σ) (options : Options F σ) (message : String) (cause : Cause)
    (count : Nat) : Desk F σ :=
  (desk.fail options message cause).withTally (desk.tally.addFailed (UInt64.ofNat count))

/-- Reports a warning. -/
def warn (desk : Desk F σ) (options : Options F σ) (message : String) : Desk F σ :=
  desk.enterIf options.reportsWarnings (.warning message)

/-- Takes over the shelf and the reports of a call on the staging area. -/
def adopt {α : Type} (desk : Desk F σ) (staged : Staged α) : Desk F σ :=
  { desk.withShelf staged.shelf with
    journal := desk.journal ++ staged.reports.map Event.failure }

@[simp] theorem enterIf_world {desk : Desk F σ} {asked : Bool} {event : Event F} :
    (desk.enterIf asked event).world = desk.world := by
  unfold enterIf
  split <;> rfl

@[simp] theorem enterIf_tally {desk : Desk F σ} {asked : Bool} {event : Event F} :
    (desk.enterIf asked event).tally = desk.tally := by
  unfold enterIf
  split <;> rfl

@[simp] theorem fail_world {desk : Desk F σ} {options : Options F σ} {message : String}
    {cause : Cause} : (desk.fail options message cause).world = desk.world := enterIf_world

@[simp] theorem fail_tally {desk : Desk F σ} {options : Options F σ} {message : String}
    {cause : Cause} : (desk.fail options message cause).tally = desk.tally := enterIf_tally

@[simp] theorem failMany_world {desk : Desk F σ} {options : Options F σ} {message : String}
    {cause : Cause} {count : Nat} :
    (desk.failMany options message cause count).world = desk.world := fail_world

@[simp] theorem warn_world {desk : Desk F σ} {options : Options F σ} {message : String} :
    (desk.warn options message).world = desk.world := enterIf_world

@[simp] theorem warn_tally {desk : Desk F σ} {options : Options F σ} {message : String} :
    (desk.warn options message).tally = desk.tally := enterIf_tally

end Desk

end CatalogSync
