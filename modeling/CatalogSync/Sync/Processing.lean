import CatalogSync.Sync.Desk

/-!
# Processing one draft

A draft without a resource is created, a draft with one is compared with it and, if they differ,
submitted as an update. An update that another writer got ahead of is tried once more, against the
resource in its latest version.

## Main results

* `create_eq_skipped_iff`: a draft is skipped exactly when the hook before creation drops it.
* `process_tally`: a processed draft is counted as it ended.
-/

namespace CatalogSync

namespace Desk

variable {F : Family} {σ : Type}

/-! ## Hooks and announcements -/

/-- Asks the hook before creation, if it is set; the draft to create, unless it is dropped. -/
def askBeforeCreate (desk : Desk F σ) (options : Options F σ) (draft : F.Draft) :
    Option F.Draft × Desk F σ :=
  match options.beforeCreate with
  | none => (some draft, desk)
  | some hook =>
      let answer := hook desk.world draft
      (answer.1, (desk.enter (.creating draft answer.1)).withWorld answer.2)

/-- Asks the hook before an update, if it is set; the actions to submit. -/
def askBeforeUpdate (desk : Desk F σ) (options : Options F σ) (draft : F.Draft)
    (old : F.Resource) (actions : List F.Action) : List F.Action × Desk F σ :=
  match options.beforeUpdate with
  | none => (actions, desk)
  | some hook =>
      let answer := hook desk.world draft old actions
      (answer.1, (desk.enter (.updating draft old actions)).withWorld answer.2)

/-- Reports a failed update of a draft. -/
def failUpdate (desk : Desk F σ) (options : Options F σ) (draft : F.Draft) (reason : String)
    (cause : Cause) : Desk F σ :=
  desk.fail options
    s!"Failed to update {F.name} with key: '{F.keyOf draft}'. Reason: {reason}" cause

theorem failUpdate_world {desk : Desk F σ} {options : Options F σ} {draft : F.Draft}
    {reason : String} {cause : Cause} :
    (desk.failUpdate options draft reason cause).world = desk.world := fail_world

/-! ## Calls of the remote -/

/-- Submits the creation of a kept draft on behalf of the draft that was handed in. -/
def submitCreation (desk : Desk F σ) (draft kept : F.Draft) :
    Except RemoteFault (Option F.Resource) × Desk F σ :=
  let call := desk.world.remote.create kept
  (call.1, (desk.enter (.submitting draft desk.world.remote)).withRemote call.2)

/-- Submits actions on a resource on behalf of a draft. -/
def submitUpdate (desk : Desk F σ) (draft : F.Draft) (old : F.Resource)
    (actions : List F.Action) : Except RemoteFault F.Resource × Desk F σ :=
  let call := desk.world.remote.update old actions
  (call.1, (desk.enter (.submitting draft desk.world.remote)).withRemote call.2)

/-- Fetches the latest version of a resource. -/
def refetch (desk : Desk F σ) (old : F.Resource) :
    Except RemoteFault (Option F.Resource) × Desk F σ :=
  let call := desk.world.remote.fetch (F.id old)
  (call.1, desk.withRemote call.2)

/-! ## Creating -/

/-- Creates the resource of a draft. A remote that answers no resource ends it without a report. -/
def create (desk : Desk F σ) (options : Options F σ) (draft : F.Draft) : Phase × Desk F σ :=
  let asked := desk.askBeforeCreate options draft
  match asked.1 with
  | none => (.skipped, asked.2)
  | some kept =>
      let call := asked.2.submitCreation draft kept
      match call.1 with
      | .ok (some resource) =>
          (.created, call.2.enterIf options.announcesCreated (.created resource))
      | .ok none => (.failed, call.2)
      | .error fault =>
          (.failed, call.2.fail options
            s!"Failed to create {F.name} with key: '{F.keyOf draft}'. Reason: {fault.message}"
            (.remote fault))

/-- The draft is dropped exactly when a hook is set that drops it in the world as it is. -/
theorem askBeforeCreate_eq_none_iff {desk : Desk F σ} {options : Options F σ} {draft : F.Draft} :
    (desk.askBeforeCreate options draft).1 = none ↔
      ∃ hook, options.beforeCreate = some hook ∧ (hook desk.world draft).1 = none := by
  unfold askBeforeCreate
  cases options.beforeCreate with
  | none => simp
  | some hook => simp

/-- A draft to create ends as skipped exactly when the hook before creation drops it. -/
theorem create_eq_skipped_iff {desk : Desk F σ} {options : Options F σ} {draft : F.Draft} :
    (desk.create options draft).1 = .skipped ↔ (desk.askBeforeCreate options draft).1 = none := by
  simp only [create]
  split
  · rename_i hDropped
    simp [hDropped]
  · rename_i kept hKept
    rw [hKept]
    split <;> simp

/-! ## Updating -/

/-- What one attempt at an update came to. -/
inductive Attempt where
  /-- The draft has ended. -/
  | ended (phase : Phase)
  /-- Another writer changed the resource in the meantime. -/
  | overtaken (fault : RemoteFault)

/-- Brings a resource into the state of a draft, without a second try. -/
def attemptUpdate (desk : Desk F σ) (options : Options F σ) (draft : F.Draft)
    (old : F.Resource) : Attempt × Desk F σ :=
  match F.diff old draft with
  | .error refusal =>
      (.ended .failed, desk.fail options
        (s!"Failed to build update actions for {F.name} with key: '{F.keyOf draft}'. " ++
          s!"Reason: {refusal.message}")
        (.refused refusal))
  | .ok [] => (.ended .upToDate, desk)
  | .ok actions =>
      let asked := desk.askBeforeUpdate options draft old actions
      match asked.1 with
      | [] => (.ended .upToDate, asked.2)
      | submitted =>
          let call := asked.2.submitUpdate draft old submitted
          match call.1 with
          | .ok resource =>
              (.ended .updated,
                call.2.enterIf options.announcesUpdated (.updated resource submitted))
          | .error fault =>
              if fault.isConflict then (.overtaken fault, call.2)
              else
                (.ended .failed,
                  call.2.failUpdate options draft fault.message (.remote fault))

/-- The second and last attempt at an update. -/
def retryUpdate (desk : Desk F σ) (options : Options F σ) (draft : F.Draft)
    (latest : F.Resource) : Phase × Desk F σ :=
  let attempt := desk.attemptUpdate options draft latest
  match attempt.1 with
  | .ended phase => (phase, attempt.2)
  | .overtaken fault =>
      (.failed, attempt.2.failUpdate options draft fault.message (.remote fault))

/-- Updates the resource of a draft, and tries once more when another writer was faster. -/
def update (desk : Desk F σ) (options : Options F σ) (draft : F.Draft) (old : F.Resource) :
    Phase × Desk F σ :=
  let attempt := desk.attemptUpdate options draft old
  match attempt.1 with
  | .ended phase => (phase, attempt.2)
  | .overtaken _ =>
      let fetched := attempt.2.refetch old
      match fetched.1 with
      | .ok (some latest) => fetched.2.retryUpdate options draft latest
      | .ok none =>
          (.failed, fetched.2.failUpdate options draft
            ("Not found when attempting to fetch while retrying after " ++
              "concurrency modification.")
            (.remote (.notFound (F.id old))))
      | .error fault =>
          (.failed, fetched.2.failUpdate options draft
            "Failed to fetch from remote while retrying after concurrency modification."
            (.remote fault))

/-! ## One draft -/

/-- Syncs a draft with the resource of its key, if there is one. -/
def sync (desk : Desk F σ) (options : Options F σ) (draft : F.Draft) (old : Option F.Resource) :
    Phase × Desk F σ :=
  match old with
  | some old => desk.update options draft old
  | none => desk.create options draft

/-- Counts a draft as it ended. -/
def close (desk : Desk F σ) (draft : F.Draft) (phase : Phase) : Desk F σ :=
  (desk.enter (.ended draft phase desk.world.remote)).withTally (desk.tally.record phase)

/-- Syncs a draft and counts it as it ended. -/
def process (desk : Desk F σ) (options : Options F σ) (draft : F.Draft)
    (old : Option F.Resource) : Phase × Desk F σ :=
  let synced := desk.sync options draft old
  (synced.1, synced.2.close draft synced.1)

/-! ## What is counted -/

@[simp] theorem askBeforeCreate_tally {desk : Desk F σ} {options : Options F σ}
    {draft : F.Draft} : (desk.askBeforeCreate options draft).2.tally = desk.tally := by
  unfold askBeforeCreate
  split <;> rfl

@[simp] theorem askBeforeUpdate_tally {desk : Desk F σ} {options : Options F σ}
    {draft : F.Draft} {old : F.Resource} {actions : List F.Action} :
    (desk.askBeforeUpdate options draft old actions).2.tally = desk.tally := by
  unfold askBeforeUpdate
  split <;> rfl

@[simp] theorem failUpdate_tally {desk : Desk F σ} {options : Options F σ} {draft : F.Draft}
    {reason : String} {cause : Cause} :
    (desk.failUpdate options draft reason cause).tally = desk.tally := fail_tally

@[simp] theorem submitCreation_tally {desk : Desk F σ} {draft kept : F.Draft} :
    (desk.submitCreation draft kept).2.tally = desk.tally := rfl

@[simp] theorem submitUpdate_tally {desk : Desk F σ} {draft : F.Draft} {old : F.Resource}
    {actions : List F.Action} : (desk.submitUpdate draft old actions).2.tally = desk.tally := rfl

@[simp] theorem refetch_tally {desk : Desk F σ} {old : F.Resource} :
    (desk.refetch old).2.tally = desk.tally := rfl

theorem create_tally {desk : Desk F σ} {options : Options F σ} {draft : F.Draft} :
    (desk.create options draft).2.tally = desk.tally := by
  simp only [create]
  split
  · simp
  · split <;> simp

theorem attemptUpdate_tally {desk : Desk F σ} {options : Options F σ} {draft : F.Draft}
    {old : F.Resource} : (desk.attemptUpdate options draft old).2.tally = desk.tally := by
  simp only [attemptUpdate]
  split
  · simp
  · rfl
  · split
    · simp
    · split
      · simp
      · split <;> simp

theorem retryUpdate_tally {desk : Desk F σ} {options : Options F σ} {draft : F.Draft}
    {latest : F.Resource} : (desk.retryUpdate options draft latest).2.tally = desk.tally := by
  simp only [retryUpdate]
  split <;> simp [attemptUpdate_tally]

theorem update_tally {desk : Desk F σ} {options : Options F σ} {draft : F.Draft}
    {old : F.Resource} : (desk.update options draft old).2.tally = desk.tally := by
  simp only [update]
  split
  · exact attemptUpdate_tally
  · split <;> simp [attemptUpdate_tally, retryUpdate_tally]

theorem sync_tally {desk : Desk F σ} {options : Options F σ} {draft : F.Draft}
    {old : Option F.Resource} : (desk.sync options draft old).2.tally = desk.tally := by
  unfold sync
  split
  · exact update_tally
  · exact create_tally

/-- A processed draft is counted once, as it ended. -/
theorem process_tally {desk : Desk F σ} {options : Options F σ} {draft : F.Draft}
    {old : Option F.Resource} :
    (desk.process options draft old).2.tally =
      desk.tally.record (desk.process options draft old).1 := by
  show (desk.sync options draft old).2.tally.record _ = _
  rw [sync_tally]
  rfl

end Desk

end CatalogSync
