import CatalogSync.Catalog.Families
import CatalogSync.Proofs.Treating

/-!
# An overtaken update is tried once more

A draft is compared with its resource and the difference is submitted. If another writer was faster,
the resource is fetched and the draft compared with it again, but a second conflict is final. The
calls of the remote tell all this apart: each update among them belongs to one trial, and a trial
starts from the resource at hand or from the one that was fetched.

## Main results

* `Desk.attemptUpdate_tried`: a trial ends the draft, or it submits something and is overtaken.
* `Desk.update_retries`: an update is one trial, or two trials with a fetch between them.
-/

namespace CatalogSync

variable {F : Family} {σ : Type}

/-! ## What a call tells -/

namespace Call

/-- The resource and the actions of an update that was submitted. -/
def submission? : Call F → Option (F.Resource × List F.Action)
  | .update old actions _ => some (old, actions)
  | _ => none

/-- What an update was answered. -/
def verdict? : Call F → Option (Except RemoteFault F.Resource)
  | .update _ _ answer => some answer
  | _ => none

/-- The resource that was fetched. -/
def fetched? : Call F → Option F.Resource
  | .fetch _ (.ok found) => found
  | _ => none

/-- Whether a resource was asked for by its identifier. -/
def isFetch : Call F → Bool
  | .fetch .. => true
  | _ => false

end Call

/-! ## Trials -/

/-- What the hook before an update makes of actions, and the world that it leaves. It is not asked
about an empty list. -/
def Options.revise (options : Options F σ) (world : World F σ) (draft : F.Draft)
    (old : F.Resource) : List F.Action → List F.Action × World F σ
  | [] => ([], world)
  | action :: rest =>
      match options.beforeUpdate with
      | none => (action :: rest, world)
      | some hook => hook world draft old (action :: rest)

/-- One trial of an update: the world in which it is made, and the resource that it starts from. -/
structure Trial (F : Family) (σ : Type) where
  world : World F σ
  resource : F.Resource

namespace Trial

/-- What is left to submit at a trial: the difference, as the hook wants it. -/
def actions (options : Options F σ) (draft : F.Draft) (trial : Trial F σ) :
    Except Refusal (List F.Action) :=
  (F.diff trial.resource draft).map fun proposed =>
    (options.revise trial.world draft trial.resource proposed).1

/-- The update that a trial submits, unless nothing is left. -/
def submission? (options : Options F σ) (draft : F.Draft) (trial : Trial F σ) :
    Option (F.Resource × List F.Action) :=
  match trial.actions options draft with
  | .ok (action :: rest) => some (trial.resource, action :: rest)
  | _ => none

/-- The world after the hook was asked at a trial. -/
def left (options : Options F σ) (draft : F.Draft) (trial : Trial F σ) : World F σ :=
  match F.diff trial.resource draft with
  | .ok proposed => (options.revise trial.world draft trial.resource proposed).2
  | .error _ => trial.world

end Trial

/-- The course of an update, told by its trials, by the calls of the remote and by the reports. -/
structure Retries (options : Options F σ) (draft : F.Draft) (old : F.Resource)
    (before : Desk F σ) (ended : Phase × Desk F σ) (trials : List (Trial F σ))
    (calls : List (Call F)) (reports : List Report) : Prop where
  /-- These calls were made, -/
  log : ended.2.world.remote.log = before.world.remote.log ++ calls
  /-- and these failures were reported. -/
  failures : ended.2.failures = before.failures ++ reports
  /-- Nothing else was called than updates and the fetch of the resource at hand. -/
  kinds : ∀ call ∈ calls, call.submission?.isSome = true ∨ ∃ answer, call = .fetch (F.id old) answer
  /-- There are at most two updates -/
  updates : (calls.filterMap Call.submission?).length ≤ 2
  /-- and one fetch, -/
  fetches : calls.countP Call.isFetch ≤ 1
  /-- which is made exactly if the first update met a conflict. -/
  fetches_iff : calls.countP Call.isFetch = 1 ↔
    ∃ fault, (calls.filterMap Call.verdict?).head? = some (.error fault) ∧ fault.isConflict = true
  /-- The first trial starts from the resource at hand, -/
  first : trials.head? = some ⟨before.world, old⟩
  /-- and another one from the resource that was fetched. -/
  resources : trials.map Trial.resource = old :: calls.filterMap Call.fetched?
  /-- It finds the world as the hook left it at the first, but for the two calls made since. -/
  again : ∀ trial ∈ trials.tail,
    trial.world = (Trial.left options draft ⟨before.world, old⟩).withRemote trial.world.remote ∧
      trial.world.remote.log = before.world.remote.log ++ calls.take 2
  /-- The n-th update is what is left to submit at the n-th trial, -/
  submitted : ∀ n : Nat, (calls.filterMap Call.submission?)[n]? =
    trials[n]?.bind (Trial.submission? options draft)
  /-- and no update is empty. -/
  nonempty : ∀ submission ∈ calls.filterMap Call.submission?, submission.2 ≠ []
  /-- The draft ends as updated exactly if the last update succeeded, -/
  updated_iff : ended.1 = .updated ↔
    ∃ resource, (calls.filterMap Call.verdict?).getLast? = some (.ok resource)
  /-- as up to date exactly if nothing was left to submit at one of the trials, -/
  upToDate_iff : ended.1 = .upToDate ↔ ∃ trial ∈ trials, trial.actions options draft = .ok []
  /-- and otherwise as failed. -/
  failed : ended.1 ≠ .updated → ended.1 ≠ .upToDate → ended.1 = .failed
  /-- A draft that failed is reported once, and no other. -/
  reported : reports.length =
    if ended.1 = .failed ∧ options.reportsFailures = true then 1 else 0

namespace Desk

variable {options : Options F σ} {draft : F.Draft} {desk before after : Desk F σ}
  {old : F.Resource} {trials : List (Trial F σ)} {phase : Phase} {calls : List (Call F)}

/-! ## Trials that end a draft -/

/-- The last trial of an update, the phase that the draft ends in, and the calls made for it. There
is no such trial if the resource cannot be fetched after the first one. -/
inductive Closes (options : Options F σ) (draft : F.Draft) :
    List (Trial F σ) → Phase → List (Call F) → Prop
  | lost : Closes options draft [] .failed []
  | refused {trial : Trial F σ} {refusal : Refusal}
      (hActions : trial.actions options draft = .error refusal) :
      Closes options draft [trial] .failed []
  | upToDate {trial : Trial F σ} (hActions : trial.actions options draft = .ok []) :
      Closes options draft [trial] .upToDate []
  | updated {trial : Trial F σ} {action : F.Action} {rest : List F.Action}
      (hActions : trial.actions options draft = .ok (action :: rest)) (resource : F.Resource) :
      Closes options draft [trial] .updated
        [.update trial.resource (action :: rest) (.ok resource)]
  | failed {trial : Trial F σ} {action : F.Action} {rest : List F.Action}
      (hActions : trial.actions options draft = .ok (action :: rest)) (fault : RemoteFault) :
      Closes options draft [trial] .failed
        [.update trial.resource (action :: rest) (.error fault)]

namespace Closes

variable (hCloses : Closes options draft trials phase calls)

include hCloses

theorem isSome_submission? : ∀ call ∈ calls, call.submission?.isSome = true := by
  cases hCloses <;> simp [Call.submission?]

theorem countP_isFetch : calls.countP Call.isFetch = 0 := by
  cases hCloses <;> rfl

theorem fetched : calls.filterMap Call.fetched? = [] := by
  cases hCloses <;> rfl

theorem ne_nil_of_submission : ∀ submission ∈ calls.filterMap Call.submission?,
    submission.2 ≠ [] := by
  cases hCloses <;> simp [Call.submission?]

theorem length_submissions : (calls.filterMap Call.submission?).length ≤ 1 := by
  cases hCloses <;> simp [Call.submission?]

/-- What is submitted is what is left to submit at the trial. -/
theorem getElem?_submissions (n : Nat) : (calls.filterMap Call.submission?)[n]? =
    trials[n]?.bind (Trial.submission? options draft) := by
  cases hCloses with
  | lost => rfl
  | _ hActions =>
      cases n with
      | zero => simp [Trial.submission?, Call.submission?, hActions]
      | succ n => simp [Call.submission?]

theorem updated_iff : phase = .updated ↔
    ∃ resource, (calls.filterMap Call.verdict?).getLast? = some (.ok resource) := by
  cases hCloses <;> simp [Call.verdict?]

theorem upToDate_iff : phase = .upToDate ↔
    ∃ trial ∈ trials, trial.actions options draft = .ok [] := by
  cases hCloses with
  | lost => simp
  | _ hActions => simp [hActions]

theorem isEnd (hUpdated : phase ≠ .updated) (hUpToDate : phase ≠ .upToDate) :
    phase = .failed := by
  cases hCloses with
  | updated => exact absurd rfl hUpdated
  | upToDate => exact absurd rfl hUpToDate
  | _ => rfl

end Closes

/-! ## One trial -/

/-- A draft that ended in a phase was reported if it failed. -/
def Reports (options : Options F σ) (phase : Phase) (before after : Desk F σ) : Prop :=
  ∃ reports, after.failures = before.failures ++ reports ∧
    reports.length = if phase = .failed ∧ options.reportsFailures = true then 1 else 0

theorem Reports.of_same (hFailures : after.failures = before.failures) (hPhase : phase ≠ .failed) :
    Reports options phase before after :=
  ⟨[], by rw [hFailures, List.append_nil], by simp [hPhase]⟩

theorem Reports.from (hReports : Reports options phase desk after)
    (hFailures : desk.failures = before.failures) : Reports options phase before after := by
  obtain ⟨reports, hAfter, hReported⟩ := hReports
  exact ⟨reports, hFailures ▸ hAfter, hReported⟩

theorem Reports.fail (hFailures : desk.failures = before.failures) {message : String}
    {cause : Cause} : Reports options .failed before (desk.fail options message cause) := by
  refine ⟨_, fail_failures.trans (congrArg (· ++ _) hFailures), ?_⟩
  cases options.reportsFailures <;> rfl

/-- A trial ends the draft, or it submits something and is overtaken. -/
inductive Tried (options : Options F σ) (draft : F.Draft) (old : F.Resource) (before : Desk F σ) :
    Attempt × Desk F σ → Prop
  | ended {phase : Phase} {after : Desk F σ} {calls : List (Call F)}
      (hCloses : Closes options draft [⟨before.world, old⟩] phase calls)
      (hCalm : ∀ fault, (calls.filterMap Call.verdict?).head? = some (.error fault) →
        fault.isConflict = false)
      (hLog : after.world.remote.log = before.world.remote.log ++ calls)
      (hReports : Reports options phase before after) :
      Tried options draft old before (.ended phase, after)
  | overtaken {action : F.Action} {rest : List F.Action} (fault : RemoteFault)
      {after : Desk F σ}
      (hActions : Trial.actions options draft ⟨before.world, old⟩ = .ok (action :: rest))
      (hConflict : fault.isConflict = true)
      (hLog : after.world.remote.log =
        before.world.remote.log ++ [.update old (action :: rest) (.error fault)])
      (hWorld : after.world =
        (Trial.left options draft ⟨before.world, old⟩).withRemote after.world.remote)
      (hFailures : after.failures = before.failures) :
      Tried options draft old before (.overtaken fault, after)

/-- The hook is asked about actions that there are, and it reports nothing. -/
theorem askBeforeUpdate_of_ne_nil {actions : List F.Action} (hSome : actions ≠ []) :
    (desk.askBeforeUpdate options draft old actions).1 =
        (options.revise desk.world draft old actions).1 ∧
      (desk.askBeforeUpdate options draft old actions).2.world =
        (options.revise desk.world draft old actions).2 ∧
      (desk.askBeforeUpdate options draft old actions).2.failures = desk.failures := by
  obtain ⟨action, rest, rfl⟩ := List.exists_cons_of_ne_nil hSome
  unfold askBeforeUpdate Options.revise
  cases options.beforeUpdate with
  | none => exact ⟨rfl, rfl, rfl⟩
  | some hook => exact ⟨rfl, rfl, List.filterMap_append.trans (List.append_nil _)⟩

theorem enterIf_updated_failures {asked : Bool} {resource : F.Resource} {actions : List F.Action} :
    (desk.enterIf asked (.updated resource actions)).failures = desk.failures :=
  failures_of_silent (enterIf_journal rfl)

theorem submitUpdate_log {actions : List F.Action} :
    (desk.submitUpdate draft old actions).2.world.remote.log =
      desk.world.remote.log ++
        [.update old actions (desk.submitUpdate draft old actions).1] := rfl

theorem submitUpdate_failures {actions : List F.Action} :
    (desk.submitUpdate draft old actions).2.failures = desk.failures :=
  List.filterMap_append.trans (List.append_nil _)

section Hooked

variable (hSpares : ∀ hook, options.beforeUpdate = some hook → ∀ world draft old actions,
  (hook world draft old actions).2.remote = world.remote)

include hSpares

theorem revise_remote {world : World F σ} {actions : List F.Action} :
    (options.revise world draft old actions).2.remote = world.remote := by
  unfold Options.revise
  split
  · rfl
  · split
    · rfl
    · rename_i hook hHook
      exact hSpares hook hHook _ _ _ _

/-- What one trial comes to. -/
theorem attemptUpdate_tried : Tried options draft old desk (desk.attemptUpdate options draft old) := by
  simp only [attemptUpdate]
  split
  · rename_i refusal hDiff
    have hActions : Trial.actions options draft ⟨desk.world, old⟩ = .error refusal := by
      simp only [Trial.actions, hDiff]
      rfl
    refine .ended (.refused hActions) (by simp) ?_ (.fail rfl)
    rw [fail_world, List.append_nil]
  · rename_i hDiff
    have hActions : Trial.actions options draft ⟨desk.world, old⟩ = .ok [] := by
      simp only [Trial.actions, hDiff]
      rfl
    exact .ended (.upToDate hActions) (by simp) (List.append_nil _).symm (.of_same rfl (by decide))
  · rename_i proposed hSome hDiff
    obtain ⟨hRevised, hWorld, hSilent⟩ :=
      @askBeforeUpdate_of_ne_nil F σ options draft desk old proposed hSome
    have hActions : Trial.actions options draft ⟨desk.world, old⟩ =
        .ok (desk.askBeforeUpdate options draft old proposed).1 := by
      simp only [Trial.actions, hDiff, hRevised]
      rfl
    -- The hook spares the remote, so its log still ends where the trial began.
    have hLeft : Trial.left options draft ⟨desk.world, old⟩ =
        (desk.askBeforeUpdate options draft old proposed).2.world := by
      simp only [Trial.left, hDiff, hWorld]
    have hRemote : (desk.askBeforeUpdate options draft old proposed).2.world.remote =
        desk.world.remote := by
      rw [hWorld]
      exact revise_remote hSpares
    split
    · rename_i hNone
      rw [hNone] at hActions
      refine .ended (.upToDate hActions) (by simp) ?_ (.of_same hSilent (by decide))
      rw [hRemote, List.append_nil]
    · rename_i hLeftOver
      obtain ⟨action, rest, hCons⟩ := List.exists_cons_of_ne_nil hLeftOver
      rw [hCons] at hActions ⊢
      have hLog := @submitUpdate_log F σ draft
        (desk.askBeforeUpdate options draft old proposed).2 old (action :: rest)
      have hFailures := (@submitUpdate_failures F σ draft
        (desk.askBeforeUpdate options draft old proposed).2 old (action :: rest)).trans hSilent
      rw [hRemote] at hLog
      split
      · rename_i resource hAnswer
        rw [hAnswer] at hLog
        refine .ended (.updated hActions resource) (by simp [Call.verdict?]) ?_
          (.of_same (enterIf_updated_failures.trans hFailures) (by decide))
        rw [enterIf_world]
        exact hLog
      · rename_i fault hAnswer
        rw [hAnswer] at hLog
        split
        · rename_i hConflict
          refine .overtaken fault hActions hConflict hLog ?_ hFailures
          rw [hLeft]
          rfl
        · rename_i hCalm
          refine .ended (.failed hActions fault) ?_ ?_ (.fail hFailures)
          · simpa [Call.verdict?] using hCalm
          · rw [failUpdate_world]
            exact hLog

/-- The second trial ends the draft, whatever it comes to. -/
theorem retryUpdate_closes {latest : F.Resource} :
    ∃ calls, Closes options draft [⟨desk.world, latest⟩]
        (desk.retryUpdate options draft latest).1 calls ∧
      (desk.retryUpdate options draft latest).2.world.remote.log = desk.world.remote.log ++ calls ∧
      Reports options (desk.retryUpdate options draft latest).1 desk
        (desk.retryUpdate options draft latest).2 := by
  have hTried := @attemptUpdate_tried F σ options draft desk latest hSpares
  simp only [retryUpdate]
  generalize desk.attemptUpdate options draft latest = attempt at hTried ⊢
  cases hTried with
  | ended hCloses _ hLog hReports => exact ⟨_, hCloses, hLog, hReports⟩
  | overtaken fault hActions _ hLog _ hFailures =>
      refine ⟨_, .failed hActions fault, ?_, .fail hFailures⟩
      rw [failUpdate_world]
      exact hLog

end Hooked

/-! ## The whole update -/

variable {ended : Phase × Desk F σ}

/-- An update that takes a single trial. -/
theorem Closes.retries (hCloses : Closes options draft [⟨before.world, old⟩] ended.1 calls)
    (hCalm : ∀ fault, (calls.filterMap Call.verdict?).head? = some (.error fault) →
      fault.isConflict = false)
    (hLog : ended.2.world.remote.log = before.world.remote.log ++ calls)
    (hReports : Reports options ended.1 before ended.2) :
    ∃ trials calls reports, Retries options draft old before ended trials calls reports := by
  obtain ⟨reports, hFailures, hReported⟩ := hReports
  refine ⟨[⟨before.world, old⟩], calls, reports, ?_⟩
  exact {
    log := hLog
    failures := hFailures
    kinds := fun call hCall => Or.inl (hCloses.isSome_submission? call hCall)
    updates := Nat.le_succ_of_le hCloses.length_submissions
    fetches := by
      rw [hCloses.countP_isFetch]
      decide
    fetches_iff := by
      rw [hCloses.countP_isFetch]
      refine iff_of_false (by decide) ?_
      rintro ⟨fault, hVerdict, hConflict⟩
      rw [hCalm fault hVerdict] at hConflict
      cases hConflict
    first := rfl
    resources := by
      rw [hCloses.fetched]
      rfl
    again := by simp
    submitted := hCloses.getElem?_submissions
    nonempty := hCloses.ne_nil_of_submission
    updated_iff := hCloses.updated_iff
    upToDate_iff := hCloses.upToDate_iff
    failed := hCloses.isEnd
    reported := hReported }

/-- An update that is overtaken: the resource is fetched, and another trial may follow. -/
theorem Closes.retries_overtaken {middle : World F σ} {action : F.Action} {rest : List F.Action}
    {fault : RemoteFault} {answer : Except RemoteFault (Option F.Resource)}
    (hActions : Trial.actions options draft ⟨before.world, old⟩ = .ok (action :: rest))
    (hConflict : fault.isConflict = true)
    (hCloses : Closes options draft trials ended.1 calls)
    (hTrials : trials.map Trial.resource = (Call.fetched? (.fetch (F.id old) answer)).toList)
    (hWorld : ∀ trial ∈ trials, trial.world = middle)
    (hLeft : middle = (Trial.left options draft ⟨before.world, old⟩).withRemote middle.remote)
    (hMiddle : middle.remote.log = before.world.remote.log ++
      [.update old (action :: rest) (.error fault), .fetch (F.id old) answer])
    (hLog : ended.2.world.remote.log = middle.remote.log ++ calls)
    (hReports : Reports options ended.1 before ended.2) :
    ∃ trials calls reports, Retries options draft old before ended trials calls reports := by
  obtain ⟨reports, hFailures, hReported⟩ := hReports
  have hFetches : (Call.update old (action :: rest) (.error fault) ::
      .fetch (F.id old) answer :: calls).countP Call.isFetch = 1 := by
    rw [List.countP_cons_of_neg Bool.false_ne_true, List.countP_cons_of_pos rfl,
      hCloses.countP_isFetch]
  have hFetched : (Call.update old (action :: rest) (.error fault) ::
      .fetch (F.id old) answer :: calls).filterMap Call.fetched? = trials.map Trial.resource := by
    rw [hTrials, List.filterMap_cons_none rfl, List.filterMap_cons, hCloses.fetched]
    cases Call.fetched? (.fetch (F.id old) answer) <;> rfl
  refine ⟨⟨before.world, old⟩ :: trials,
    .update old (action :: rest) (.error fault) :: .fetch (F.id old) answer :: calls, reports, ?_⟩
  exact {
    log := by
      rw [hLog, hMiddle, List.append_assoc]
      rfl
    failures := hFailures
    kinds := by
      intro call hCall
      rcases List.mem_cons.mp hCall with rfl | hCall
      · exact Or.inl rfl
      rcases List.mem_cons.mp hCall with rfl | hCall
      · exact Or.inr ⟨answer, rfl⟩
      · exact Or.inl (hCloses.isSome_submission? call hCall)
    updates := Nat.succ_le_succ hCloses.length_submissions
    fetches := Nat.le_of_eq hFetches
    fetches_iff := iff_of_true hFetches ⟨fault, rfl, hConflict⟩
    first := rfl
    resources := by
      rw [hFetched]
      rfl
    again := by
      intro trial hTrial
      rw [hWorld trial hTrial]
      exact ⟨hLeft, hMiddle⟩
    submitted := by
      intro n
      cases n with
      | zero => simp [Call.submission?, Trial.submission?, hActions]
      | succ n => exact hCloses.getElem?_submissions n
    nonempty := by
      intro submission hSubmission
      rcases List.mem_cons.mp hSubmission with rfl | hSubmission
      · exact List.cons_ne_nil _ _
      · exact hCloses.ne_nil_of_submission submission hSubmission
    updated_iff := by
      rw [hCloses.updated_iff]
      show _ ↔ ∃ resource, (_ :: calls.filterMap Call.verdict?).getLast? = _
      cases hVerdicts : calls.filterMap Call.verdict? <;> simp [List.getLast?_cons_cons]
    upToDate_iff := by
      simpa [hActions] using hCloses.upToDate_iff
    failed := hCloses.isEnd
    reported := hReported }

/--
An update that another writer gets ahead of is tried once more, against the latest version.
-/
theorem update_retries (hSpares : ∀ hook, options.beforeUpdate = some hook →
      ∀ world draft old actions, (hook world draft old actions).2.remote = world.remote)
    (desk : Desk F σ) (draft : F.Draft) (old : F.Resource) :
    ∃ trials calls reports,
      Retries options draft old desk (desk.update options draft old) trials calls reports := by
  have hTried := @attemptUpdate_tried F σ options draft desk old hSpares
  simp only [update]
  generalize desk.attemptUpdate options draft old = attempt at hTried ⊢
  -- Only a conflict leads to a fetch, and only a resource that is found to a second trial.
  cases hTried with
  | ended hCloses hCalm hLog hReports => exact hCloses.retries hCalm hLog hReports
  | @overtaken action rest fault after hActions hConflict hLog hWorld hFailures =>
      have hMiddle : (after.refetch old).2.world.remote.log = desk.world.remote.log ++
          [.update old (action :: rest) (.error fault), .fetch (F.id old) (after.refetch old).1] := by
        show after.world.remote.log ++ [_] = _
        rw [hLog, List.append_assoc]
        rfl
      have hLeft : (after.refetch old).2.world =
          (Trial.left options draft ⟨desk.world, old⟩).withRemote
            (after.refetch old).2.world.remote := by
        show after.world.withRemote _ = _
        rw [hWorld]
        rfl
      have hQuiet : (after.refetch old).2.failures = desk.failures := hFailures
      dsimp only
      split
      · rename_i latest hAnswer
        rw [hAnswer] at hMiddle
        obtain ⟨calls, hCloses, hMore, hReports⟩ :=
          @retryUpdate_closes F σ options draft (after.refetch old).2 hSpares latest
        exact hCloses.retries_overtaken hActions hConflict rfl (by simp) hLeft hMiddle hMore
          (hReports.from hQuiet)
      · rename_i hAnswer
        rw [hAnswer] at hMiddle
        refine Closes.lost.retries_overtaken hActions hConflict rfl (by simp) hLeft hMiddle ?_
          (.fail hQuiet)
        rw [failUpdate_world, List.append_nil]
      · rename_i lookupFault hAnswer
        rw [hAnswer] at hMiddle
        refine Closes.lost.retries_overtaken hActions hConflict rfl (by simp) hLeft hMiddle ?_
          (.fail hQuiet)
        rw [failUpdate_world, List.append_nil]

/-- The shoes were renamed since they were looked up, so they are fetched and renamed again. -/
theorem update_retries_shoes :
    let shoes : Category :=
      ⟨"1", "shoes", 1, .of "en" "Shoes", .of "en" "shoes", none, none, none, none⟩
    let boots : Category := { shoes with version := 2, name := .of "en" "Boots" }
    let sandals : Category.Draft := .basic "shoes" (.of "en" "Sandals") (.of "en" "shoes")
    let options : Options Family.category Nat :=
      { beforeUpdate := some fun world _ _ actions => (actions, world.withNotes (world.notes + 1))
        reportsFailures := true }
    let remote : Remote Family.category := ({ ids := toString } : Remote Family.category).insert boots
    let desk : Desk Family.category Nat := { world := { remote, notes := 0 } }
    let ended := desk.update options sandals shoes
    ended.1 = .updated ∧ ended.2.world.notes = 2 ∧
      ∃ trials calls reports, Retries options sandals shoes desk ended trials calls reports ∧
        trials.map Trial.resource = [shoes, boots] ∧ reports = [] := by
  intro shoes boots sandals options remote desk ended
  have hSpares : ∀ hook, options.beforeUpdate = some hook → ∀ world draft old actions,
      (hook world draft old actions).2.remote = world.remote := by
    intro hook hHook world draft old actions
    cases hHook
    rfl
  obtain ⟨trials, calls, reports, hRetries⟩ := update_retries hSpares desk sandals shoes
  have hUpdated : ended.1 = .updated := by decide +kernel
  have hNotes : ended.2.world.notes = 2 := by decide +kernel
  have hFetched : ended.2.world.remote.log.filterMap Call.fetched? = [boots] := by decide +kernel
  have hCalls : ended.2.world.remote.log = calls := hRetries.log
  have hReported := hRetries.reported
  rw [hUpdated, if_neg (by simp)] at hReported
  refine ⟨hUpdated, hNotes, trials, calls, reports, hRetries, ?_, ?_⟩
  · rw [hRetries.resources, ← hCalls, hFetched]
  · exact List.length_eq_zero_iff.mp hReported

end Desk

end CatalogSync
