import CatalogSync.Proofs.Batches

/-!
# What syncing drafts never does

Drafts are synced with the remote alone. Whatever comes of them, no record is parked, no resolver is
asked, and the shelf is left alone; only a hook may reach for the shelf. Nothing has to be known
about the hooks for this, and nothing about the remote.

## Main results

* `Desk.processAll_worked`: drafts that are processed park no draft and ask no resolver.
* `Desk.syncBatches_worked`: neither do batches of drafts.
-/

namespace CatalogSync

variable {F : Family} {σ : Type}

/-- Whether an event neither parks a draft nor asks a resolver. -/
def Event.isWork : Event F → Bool
  | .resolving _ | .parked _ => false
  | _ => true

theorem Event.isWork_of_isReport {event : Event F} (hReport : event.isReport = true) :
    event.isWork = true := by
  cases event with
  | failure | created | updated => rfl
  | _ => cases hReport

/-- Hooks leave the shelf alone; whatever else they reach they may change. -/
structure Options.SparesShelf (options : Options F σ) : Prop where
  beforeCreate : ∀ hook, options.beforeCreate = some hook → ∀ world draft,
    (hook world draft).2.shelf = world.shelf
  beforeUpdate : ∀ hook, options.beforeUpdate = some hook → ∀ world draft old actions,
    (hook world draft old actions).2.shelf = world.shelf

theorem Options.Hookless.sparesShelf {options : Options F σ} (hHookless : options.Hookless) :
    options.SparesShelf where
  beforeCreate hook hHook := by simp [hHookless.beforeCreate] at hHook
  beforeUpdate hook hHook := by simp [hHookless.beforeUpdate] at hHook

namespace Desk

/-- A desk after steps that parked no draft, asked no resolver, and left the shelf to the hooks. -/
structure Worked (options : Options F σ) (before after : Desk F σ) : Prop where
  journal : Appends Event.isWork before.journal after.journal
  shelf : options.SparesShelf → after.world.shelf = before.world.shelf

variable {options : Options F σ} {desk before middle after : Desk F σ} {draft : F.Draft}
  {old : F.Resource}

theorem Worked.refl : Worked options desk desk := ⟨.refl, fun _ => rfl⟩

theorem Worked.trans (hFirst : Worked options before middle)
    (hLast : Worked options middle after) : Worked options before after :=
  ⟨hFirst.journal.trans hLast.journal,
    fun hSpares => (hLast.shelf hSpares).trans (hFirst.shelf hSpares)⟩

/-- An entry, with the same shelf. -/
theorem Worked.of_single {event : Event F} (hWork : event.isWork = true)
    (hJournal : after.journal = before.journal ++ [event])
    (hShelf : options.SparesShelf → after.world.shelf = before.world.shelf) :
    Worked options before after := ⟨⟨[event], hJournal, by simp [hWork]⟩, hShelf⟩

theorem enterIf_worked {asked : Bool} {event : Event F} (hWork : event.isWork = true) :
    Worked options desk (desk.enterIf asked event) :=
  ⟨enterIf_journal hWork, fun _ => congrArg World.shelf enterIf_world⟩

theorem failMany_worked {message : String} {cause : Cause} {count : Nat} :
    Worked options desk (desk.failMany options message cause count) := by
  have hFailed : Worked options desk (desk.fail options message cause) := enterIf_worked rfl
  exact ⟨hFailed.journal, hFailed.shelf⟩

theorem screen_worked {drafts : List (Option F.Draft)} :
    Worked options desk (screen options desk drafts).2 := by
  induction drafts generalizing desk with
  | nil => exact .refl
  | cons draft rest ih =>
      cases draft with
      | none => exact failMany_worked.trans ih
      | some draft =>
          unfold screen
          split
          · exact ih
          · exact failMany_worked.trans ih

/-! ## One draft -/

theorem askBeforeCreate_worked : Worked options desk (desk.askBeforeCreate options draft).2 := by
  unfold askBeforeCreate
  split
  · exact .refl
  · rename_i hook hHook
    exact .of_single rfl rfl fun hSpares => hSpares.beforeCreate hook hHook desk.world draft

theorem askBeforeUpdate_worked {actions : List F.Action} :
    Worked options desk (desk.askBeforeUpdate options draft old actions).2 := by
  unfold askBeforeUpdate
  split
  · exact .refl
  · rename_i hook hHook
    exact .of_single rfl rfl
      fun hSpares => hSpares.beforeUpdate hook hHook desk.world draft old actions

/-- Nothing that is done for a draft parks one or asks a resolver. -/
theorem worked_lasting : Lasting options draft (Worked options before) where
  report hReport hBefore :=
    hBefore.trans (.of_single (Event.isWork_of_isReport hReport) rfl fun _ => rfl)
  beforeCreate hBefore := hBefore.trans askBeforeCreate_worked
  beforeUpdate hBefore := hBefore.trans askBeforeUpdate_worked
  creation _ _ hBefore := hBefore.trans (.of_single rfl rfl fun _ => rfl)
  change _ _ _ hBefore := hBefore.trans (.of_single rfl rfl fun _ => rfl)
  fetch _ hBefore := hBefore.trans ⟨.refl, fun _ => rfl⟩

theorem close_worked {phase : Phase} : Worked options desk (desk.close draft phase) :=
  .of_single rfl rfl fun _ => rfl

/-! ## Batches -/

variable {found : KeyMap F.Resource} {drafts : List F.Draft} {batches : List (List F.Draft)}

/-- Drafts that are processed park no draft and ask no resolver. -/
theorem processAll_worked : Worked options desk (processAll options found desk drafts).2 :=
  Lasting.processAll (fun _ _ => worked_lasting) (fun _ _ _ _ hBefore => hBefore.trans close_worked)
    .refl

theorem syncBatch_worked : Worked options desk (desk.syncBatch options drafts).2 := by
  have hLooked : Worked options desk (desk.lookup (F.keysOf drafts)).2 := ⟨.refl, fun _ => rfl⟩
  unfold syncBatch
  split
  · exact .refl
  · simp only
    split
    · exact hLooked.trans processAll_worked
    · exact hLooked.trans failMany_worked

/-- Batches of drafts park no draft and ask no resolver. -/
theorem syncBatches_worked : Worked options desk (syncBatches options desk batches).2 := by
  induction batches generalizing desk with
  | nil => exact .refl
  | cons batch rest ih => exact syncBatch_worked.trans ih

end Desk

end CatalogSync
