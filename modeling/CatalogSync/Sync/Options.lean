import CatalogSync.Data.Chunks
import CatalogSync.Sync.World

/-!
# Options of an engine

How many drafts make a batch, what may change or veto them before they are submitted, and what is
announced. A hook that is not set lets everything pass.

## Main results

* `batchSize_withBatchSize`: a batch size of zero stands for the default.
* `flatten_batches`, `length_le_of_mem_batches`: what batches are.
-/

namespace CatalogSync

/-- The number of drafts in a batch unless another one is set. -/
def defaultBatchSize : Nat := 30

theorem defaultBatchSize_pos : 0 < defaultBatchSize := Nat.zero_lt_succ 29

/-- How drafts of a family are synced. -/
structure Options (F : Family) (σ : Type) where
  /-- The number of drafts in a batch. -/
  batchSize : Nat := defaultBatchSize
  /-- A batch holds at least one draft. -/
  batchSize_pos : 0 < batchSize := by exact defaultBatchSize_pos
  /-- Changes a draft before it is created, or drops it. -/
  beforeCreate : Option (World F σ → F.Draft → Option F.Draft × World F σ) := none
  /-- Changes the actions for a draft and a resource before they are submitted. -/
  beforeUpdate :
    Option (World F σ → F.Draft → F.Resource → List F.Action → List F.Action × World F σ) := none
  /-- Whether created resources are announced. -/
  announcesCreated : Bool := false
  /-- Whether updated resources are announced. -/
  announcesUpdated : Bool := false
  /-- Whether failures are reported. -/
  reportsFailures : Bool := false
  /-- Whether warnings are reported. -/
  reportsWarnings : Bool := false

namespace Options

variable {F : Family} {σ : Type}

/-- Sets the number of drafts in a batch; zero stands for the default. -/
def withBatchSize (options : Options F σ) (size : Nat) : Options F σ :=
  if hZero : size = 0 then
    { options with batchSize := defaultBatchSize, batchSize_pos := defaultBatchSize_pos }
  else { options with batchSize := size, batchSize_pos := Nat.pos_of_ne_zero hZero }

/-- Cuts a list of drafts into batches. -/
def batches {α : Type} (options : Options F σ) (drafts : List α) : List (List α) :=
  chunks options.batchSize options.batchSize_pos drafts

/-- The options as a line of text. -/
def describe (options : Options F σ) : String :=
  s!"SyncOptions \x7b resource: \"{F.name}\", batch_size: {options.batchSize}, " ++
  s!"before_create: {options.beforeCreate.isSome}, " ++
  s!"before_update: {options.beforeUpdate.isSome}, " ++
  s!"after_create: {options.announcesCreated}, after_update: {options.announcesUpdated}, " ++
  s!"error_callback: {options.reportsFailures}, " ++
  s!"warning_callback: {options.reportsWarnings} \x7d"

theorem batchSize_withBatchSize {options : Options F σ} {size : Nat} :
    (options.withBatchSize size).batchSize = if size = 0 then defaultBatchSize else size := by
  unfold withBatchSize
  split <;> rfl

/-- The batches, put together again, are the list. -/
theorem flatten_batches {α : Type} {options : Options F σ} {drafts : List α} :
    (options.batches drafts).flatten = drafts := flatten_chunks

/-- A batch has at most as many drafts as the options say. -/
theorem length_le_of_mem_batches {α : Type} {options : Options F σ} {drafts batch : List α}
    (hMem : batch ∈ options.batches drafts) : batch.length ≤ options.batchSize :=
  length_le_of_mem_chunks hMem

end Options

/-- Options, and how missing references are found if drafts are to wait for them. -/
structure Engine (F : Family) (σ : Type) where
  /-- How drafts are synced. -/
  options : Options F σ := {}
  /-- Tells which references exist; without it every draft is synced at once. -/
  resolver : Option (Resolver F σ) := none

end CatalogSync
