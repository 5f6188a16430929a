import CatalogSync.Catalog.Families
import CatalogSync.Proofs.Lasting
import CatalogSync.Proofs.Treating
import CatalogSync.Proofs.Working
import Mathlib.Algebra.Group.Nat.Defs

/-!
# No failure is silent except one

Drafts fail in many places: they are turned away, blocked by a resolver, lost while they are parked,
not looked up, refused, not submitted, overtaken twice, or given up. In each of these a failure is
reported. The one exception is a creation that is answered without a resource.

A piece of work explains a number of failures if it reported something, or if as many creations were
answered without a resource. This is told without the tally, for a draft is counted only after it
has ended; what was counted is explained when it is the same number.

## Main results

* `Desk.sync_explains`: a draft that is synced explains its own failure.
* `Engine.explained_lasting`: whatever an engine counts as failed since an earlier run is explained.
* `Engine.failed_of_no_report`: a call that reports nothing has counted as failed exactly the
  creations that were answered without a resource.
-/

namespace CatalogSync

variable {F : Family} {σ : Type}

/-- Whether a creation was answered without a resource. -/
def Call.isHollow : Call F → Bool
  | .create _ (.ok none) => true
  | _ => false

theorem Call.isHollow_of_isQuery {call : Call F} (hQuery : call.isQuery = true) :
    call.isHollow = false := by
  cases call with
  | create => cases hQuery
  | _ => rfl

/-- The number of failures that a draft counts for when it ends in a phase. -/
def Phase.failures (phase : Phase) : Nat := if phase = .failed then 1 else 0

theorem Tally.failed_record {tally : Tally} {phase : Phase} :
    (tally.record phase).failed = tally.failed + .ofNat phase.failures := by
  cases phase with
  | failed => rfl
  | _ => exact (UInt64.add_zero _).symm

namespace Desk

/-- The number of failures that an attempt counts for, if it is the last. -/
def Attempt.failures : Attempt → Nat
  | .ended phase => phase.failures
  | .overtaken _ => 0

variable {options : Options F σ} {draft : F.Draft} {desk before middle after : Desk F σ}
  {failed first last : Nat}

/-! ## Failures that are explained -/

/-- A number of failures is explained by what happened between two desks: something was reported, or
as many creations were answered without a resource. -/
def Explains (failed : Nat) (before after : Desk F σ) : Prop :=
  ∃ reports calls, after.failures = before.failures ++ reports ∧
    after.world.remote.log = before.world.remote.log ++ calls ∧
    (reports = [] → failed = calls.countP Call.isHollow)

theorem Explains.trans (hFirst : Explains first before middle)
    (hLast : Explains last middle after) : Explains (first + last) before after := by
  obtain ⟨reports, calls, hReports, hCalls, hFirst⟩ := hFirst
  obtain ⟨more, others, hMore, hOthers, hLast⟩ := hLast
  refine ⟨reports ++ more, calls ++ others, ?_, ?_, fun hNone => ?_⟩
  · rw [hMore, hReports, List.append_assoc]
  · rw [hOthers, hCalls, List.append_assoc]
  · obtain ⟨hNoReports, hNoMore⟩ := List.append_eq_nil_iff.mp hNone
    rw [List.countP_append, hFirst hNoReports, hLast hNoMore]

/-- What explains no failure may come before what explains some. -/
theorem Explains.later (hFirst : Explains 0 before middle)
    (hLast : Explains failed middle after) : Explains failed before after := by
  have hBoth := hFirst.trans hLast
  rwa [Nat.zero_add] at hBoth

/-- Where every creation was answered with a resource or a fault, no failure needs to be explained,
whatever was entered. -/
theorem Explains.of_appends {test : Event F → Bool}
    (hJournal : Appends test before.journal after.journal)
    (hLog : Appends (fun call => !call.isHollow) before.world.remote.log after.world.remote.log) :
    Explains 0 before after := by
  obtain ⟨events, hEvents, -⟩ := hJournal
  obtain ⟨calls, hCalls, hSolid⟩ := hLog
  refine ⟨events.filterMap Event.failure?, calls, ?_, hCalls, fun _ => ?_⟩
  · rw [failures, hEvents, List.filterMap_append]
    rfl
  · refine (List.countP_eq_zero.mpr fun call hCall => ?_).symm
    simpa using hSolid call hCall

/-- Queries explain no failure. -/
theorem Explains.of_queries {test : Event F → Bool}
    (hJournal : Appends test before.journal after.journal)
    (hLog : Appends Call.isQuery before.world.remote.log after.world.remote.log) :
    Explains 0 before after := by
  obtain ⟨calls, hCalls, hQueries⟩ := hLog
  refine .of_appends hJournal ⟨calls, hCalls, fun call hCall => ?_⟩
  simp [Call.isHollow_of_isQuery (hQueries call hCall)]

/-- Whatever was entered explains no failure if the remote is the same. -/
theorem Explains.of_remote {test : Event F → Bool}
    (hJournal : Appends test before.journal after.journal)
    (hRemote : after.world.remote = before.world.remote) : Explains 0 before after :=
  .of_queries hJournal (hRemote ▸ .refl)

theorem Explains.of_idle (hIdle : Idle before after) : Explains 0 before after :=
  .of_queries hIdle.journal hIdle.log

theorem Explains.refl : Explains 0 desk desk := .of_idle .refl

/-- A report explains any number of failures. -/
theorem Explains.of_report {reports : List Report}
    (hReports : after.failures = before.failures ++ reports) (hSome : reports ≠ [])
    (hLog : after.world.remote.log = before.world.remote.log) : Explains failed before after :=
  ⟨reports, [], hReports, by rw [hLog, List.append_nil], fun hNone => absurd hNone hSome⟩

theorem fail_explains (hReports : options.reportsFailures = true) {message : String}
    {cause : Cause} : Explains failed desk (desk.fail options message cause) := by
  have hFailures : (desk.fail options message cause).failures =
      desk.failures ++ [⟨message, cause⟩] := by rw [fail_failures, if_pos hReports]
  refine .of_report hFailures (List.cons_ne_nil _ _) ?_
  rw [fail_world]

theorem enterIf_explains {asked : Bool} {event : Event F} :
    Explains 0 desk (desk.enterIf asked event) := by
  have hJournal : Appends (fun _ => true) desk.journal (desk.enterIf asked event).journal :=
    enterIf_journal rfl
  exact .of_remote hJournal (congrArg World.remote enterIf_world)

/-! ## One draft -/

theorem askBeforeCreate_explains (hSpares : options.SparesRemote) :
    Explains 0 desk (desk.askBeforeCreate options draft).2 :=
  .of_remote askBeforeCreate_worked.journal (askBeforeCreate_remote hSpares desk draft)

theorem askBeforeUpdate_explains (hSpares : options.SparesRemote) {old : F.Resource}
    {actions : List F.Action} :
    Explains 0 desk (desk.askBeforeUpdate options draft old actions).2 :=
  .of_remote askBeforeUpdate_worked.journal (askBeforeUpdate_remote hSpares)

/-- A creation explains a failure if it is answered without a resource, and no other. -/
theorem submitCreation_explains {kept : F.Draft} :
    Explains ([Call.create kept (desk.submitCreation draft kept).1].countP Call.isHollow) desk
      (desk.submitCreation draft kept).2 :=
  ⟨[], [.create kept (desk.submitCreation draft kept).1],
    List.filterMap_append, rfl, fun _ => rfl⟩

theorem submitUpdate_explains (desk : Desk F σ) (draft : F.Draft) (old : F.Resource)
    (actions : List F.Action) : Explains 0 desk (desk.submitUpdate draft old actions).2 := by
  have hEntered : Appends (fun _ => true) desk.journal
      (desk.submitUpdate draft old actions).2.journal := .single rfl
  exact .of_appends hEntered (.single rfl)

section Reporting

variable (hReports : options.reportsFailures = true) (hSpares : options.SparesRemote)

include hReports hSpares

/-- A creation that fails was answered without a resource, or it reports why it failed. -/
theorem create_explains : Explains (desk.create options draft).1.failures desk
    (desk.create options draft).2 := by
  have hAsked : Explains 0 desk (desk.askBeforeCreate options draft).2 :=
    askBeforeCreate_explains hSpares
  simp only [create]
  split
  · exact hAsked
  · rename_i kept _
    have hCall := hAsked.later (@submitCreation_explains F σ draft _ kept)
    split <;> rename_i hAnswer <;> rw [hAnswer] at hCall
    · exact hCall.trans enterIf_explains
    · exact hCall
    · exact hCall.later (fail_explains hReports)

/-- An attempt that fails reports why; one that was overtaken has not failed yet. -/
theorem attemptUpdate_explains {old : F.Resource} :
    Explains (desk.attemptUpdate options draft old).1.failures desk
      (desk.attemptUpdate options draft old).2 := by
  simp only [attemptUpdate]
  split
  · exact fail_explains hReports
  · exact .refl
  · rename_i proposed _ _
    have hAsked : Explains 0 desk (desk.askBeforeUpdate options draft old proposed).2 :=
      askBeforeUpdate_explains hSpares
    split
    · exact hAsked
    · have hCall (actions : List F.Action) : Explains 0 desk
          ((desk.askBeforeUpdate options draft old proposed).2.submitUpdate draft old actions).2 :=
        hAsked.later (submitUpdate_explains _ draft old actions)
      split
      · exact (hCall _).trans enterIf_explains
      · split
        · exact hCall _
        · exact (hCall _).later (fail_explains hReports)

theorem retryUpdate_explains {latest : F.Resource} :
    Explains (desk.retryUpdate options draft latest).1.failures desk
      (desk.retryUpdate options draft latest).2 := by
  have hAttempt := @attemptUpdate_explains F σ options draft desk hReports hSpares latest
  simp only [retryUpdate]
  split <;> rename_i hResult <;> rw [hResult] at hAttempt
  · exact hAttempt
  · exact hAttempt.later (fail_explains hReports)

theorem update_explains {old : F.Resource} :
    Explains (desk.update options draft old).1.failures desk
      (desk.update options draft old).2 := by
  have hAttempt := @attemptUpdate_explains F σ options draft desk hReports hSpares old
  simp only [update]
  split <;> rename_i hResult <;> rw [hResult] at hAttempt
  · exact hAttempt
  · have hRefetched : Idle (desk.attemptUpdate options draft old).2
        ((desk.attemptUpdate options draft old).2.refetch old).2 := ⟨rfl, .single rfl, .refl⟩
    have hFetched := hAttempt.later (.of_idle hRefetched)
    split
    · exact hFetched.later (retryUpdate_explains hReports hSpares)
    · exact hFetched.later (fail_explains hReports)
    · exact hFetched.later (fail_explains hReports)

/-- A draft that is synced explains its own failure. -/
theorem sync_explains {old : Option F.Resource} :
    Explains (desk.sync options draft old).1.failures desk (desk.sync options draft old).2 := by
  unfold sync
  split
  · exact update_explains hReports hSpares
  · exact create_explains hReports hSpares

end Reporting

/-! ## What was counted -/

/-- Whatever was counted as failed between two desks is explained. -/
def Explained (before after : Desk F σ) : Prop :=
  ∃ failed, Explains failed before after ∧
    after.tally.failed = before.tally.failed + .ofNat failed

theorem Explained.of_explains (hExplains : Explains 0 before after)
    (hFailed : after.tally.failed = before.tally.failed) : Explained before after :=
  ⟨0, hExplains, hFailed.trans (UInt64.add_zero _).symm⟩

theorem Explained.of_idle (hIdle : Idle before after)
    (hFailed : after.tally.failed = before.tally.failed) : Explained before after :=
  .of_explains (.of_idle hIdle) hFailed

theorem Explained.refl : Explained desk desk := .of_idle .refl rfl

theorem Explained.trans (hFirst : Explained before middle) (hLast : Explained middle after) :
    Explained before after := by
  obtain ⟨first, hFirst, hFailed⟩ := hFirst
  obtain ⟨last, hLast, hMore⟩ := hLast
  refine ⟨first + last, hFirst.trans hLast, ?_⟩
  rw [hMore, hFailed, UInt64.ofNat_add, UInt64.add_assoc]

section Reporting

variable (hReports : options.reportsFailures = true)

include hReports

/-- Drafts that fail together are reported together. -/
theorem failMany_explained {message : String} {cause : Cause} {count : Nat} :
    Explained desk (desk.failMany options message cause count) := by
  have hFailed : Explains count desk (desk.fail options message cause) := fail_explains hReports
  exact ⟨count, hFailed, rfl⟩

variable (hSpares : options.SparesRemote)

include hSpares

/-- A processed draft is counted as it ended, which it has explained. -/
theorem process_explained {old : Option F.Resource} :
    Explained desk (desk.process options draft old).2 := by
  have hEntered : Appends (fun _ => true) (desk.sync options draft old).2.journal
      (desk.process options draft old).2.journal := .single rfl
  have hClosed : Explains 0 (desk.sync options draft old).2 (desk.process options draft old).2 :=
    .of_remote hEntered rfl
  refine ⟨(desk.sync options draft old).1.failures, (sync_explains hReports hSpares).trans hClosed,
    ?_⟩
  rw [process_tally, Tally.failed_record]
  rfl

theorem processAll_explained {found : KeyMap F.Resource} {drafts : List F.Draft} :
    Explained desk (processAll options found desk drafts).2 := by
  induction drafts generalizing desk with
  | nil => exact .refl
  | cons draft rest ih => exact (process_explained hReports hSpares).trans ih

/-- A batch explains its failures, whether its drafts are processed or fail together. -/
theorem syncBatch_explained {drafts : List F.Draft} :
    Explained desk (desk.syncBatch options drafts).2 := by
  have hLooked : Explained desk (desk.lookup (F.keysOf drafts)).2 := .of_idle lookup_idle rfl
  unfold Desk.syncBatch
  split
  · exact .refl
  · simp only
    split
    · exact hLooked.trans (processAll_explained hReports hSpares)
    · exact hLooked.trans (failMany_explained hReports)

end Reporting

end Desk

namespace Engine

open Desk (Explains Explained)

variable {engine : Engine F σ} {run : Run F σ}

/-! ## What an engine does -/

theorem settle_explained {outcomes : List (String × Phase)} :
    Explained run.desk (engine.settle run outcomes).desk :=
  .of_idle (settle_idle engine run outcomes) settle_failed

section Reporting

variable (hReports : engine.options.reportsFailures = true)

include hReports

/-- A draft that is lost while it is parked is reported by the staging area. -/
theorem park_explained {draft : F.Draft} {missing : KeySet} :
    Explained run.desk (engine.park run draft missing).desk := by
  cases hFaults : run.desk.world.shelf.faults with
  | nil =>
      obtain ⟨-, -, hTally⟩ := @park_of_calm F σ engine run draft missing hFaults
      refine .of_idle (park_idle engine run draft missing) ?_
      rw [hTally]
      rfl
  | cons fault faults =>
      obtain ⟨-, -, hTally⟩ := @park_of_fault F σ engine run draft missing _ _ hFaults
      refine ⟨1, ?_, congrArg Tally.failed hTally⟩
      have hReported : (engine.park run draft missing).desk.failures = run.desk.failures ++
          engine.area.reported "save" (F.keyOf draft) (.remote fault) := by
        simp only [park, Area.save_of_fault hFaults]
        show (run.desk.journal ++ _).filterMap _ = _
        rw [List.filterMap_append, List.filterMap_map]
        exact congrArg (run.desk.failures ++ ·) List.filterMap_some
      have hReporting : engine.area.reporting = true := hReports
      exact .of_report hReported (by simp [Area.reported, hReporting])
        (congrArg Remote.log park_remote)

/-- The drafts that are given up are reported together. -/
theorem abandon_explained {drafts : KeySet} {cause : Cause} :
    Explained run.desk (engine.abandon run drafts cause).desk := by
  have hGauged : Explained run.desk
      (run.withWaiting (run.waiting.releaseAll drafts)).gauge.desk :=
    .of_idle (.of_remote rfl .refl) rfl
  exact hGauged.trans (Desk.failMany_explained hReports)

/-- Whatever an engine counts as failed since an earlier run is explained. A record that cannot be
saved again is reported, but its draft waits on and is not counted. -/
theorem explained_lasting (hSpares : engine.options.SparesRemote)
    (hResolver : ∀ resolver, engine.resolver = some resolver → ∀ world keys,
      Appends Call.isQuery world.remote.log (resolver world keys).2.remote.log) :
    engine.Lasting fun later => Explained run.desk later.desk where
  fail := fun hBefore => hBefore.trans (Desk.failMany_explained hReports)
  ask := by
    intro later resolver keys hSome hBefore
    have hEntered : Appends (fun _ => true) later.desk.journal
        (later.desk.enter (.resolving keys)).journal := .single rfl
    exact hBefore.trans
      (.of_explains (.of_queries hEntered (hResolver resolver hSome later.desk.world keys)) rfl)
  park := fun hBefore => hBefore.trans (park_explained hReports)
  sync := fun hBefore => hBefore.trans (Desk.syncBatch_explained hReports hSpares)
  settle := fun hBefore => hBefore.trans settle_explained
  fetch := fun hBefore => hBefore.trans (.of_idle (.of_remote rfl .refl) rfl)
  sort := fun hBefore =>
    hBefore.trans (.of_idle sortRecords_idle (congrArg Tally.failed sortRecords_tally))
  forget := fun hBefore => hBefore
  abandon := fun hBefore => hBefore.trans (abandon_explained hReports)

end Reporting

/--
No failure is silent except one. An engine that reports failures, whose hooks leave the remote alone
and whose resolver asks it at most, adds reports to those made before and calls to those made
before. If it adds no report, then the count of failed drafts has risen by the number of creations
that were answered without a resource: as the tally counts, and as a number as long as this is one
of 64 bits.
-/
theorem failed_of_no_report (hReports : engine.options.reportsFailures = true)
    (hSpares : engine.options.SparesRemote)
    (hResolver : ∀ resolver, engine.resolver = some resolver → ∀ world keys,
      Appends Call.isQuery world.remote.log (resolver world keys).2.remote.log)
    (run : Run F σ) (drafts : List (Option F.Draft)) :
    let after := (engine.sync run drafts).desk
    ∃ reports calls, after.failures = run.desk.failures ++ reports ∧
      after.world.remote.log = run.desk.world.remote.log ++ calls ∧
      (reports = [] →
        after.tally.failed = run.desk.tally.failed + .ofNat (calls.countP Call.isHollow) ∧
          (run.desk.tally.failed.toNat + calls.countP Call.isHollow < 2 ^ 64 →
            after.tally.failed.toNat =
              run.desk.tally.failed.toNat + calls.countP Call.isHollow)) := by
  intro after
  have hLasting := @explained_lasting F σ engine run hReports hSpares hResolver
  have hExplained : Explained run.desk (engine.sync run drafts).desk := hLasting.syncBatches .refl
  obtain ⟨failed, ⟨reports, calls, hAfter, hLog, hSilent⟩, hFailed⟩ := hExplained
  refine ⟨reports, calls, hAfter, hLog, fun hNone => ?_⟩
  rw [hSilent hNone] at hFailed
  refine ⟨hFailed, fun hSmall => ?_⟩
  show (engine.sync run drafts).desk.tally.failed.toNat = _
  have hCount : calls.countP Call.isHollow < UInt64.size := Nat.lt_of_add_left_lt hSmall
  rw [hFailed, UInt64.toNat_add, UInt64.toNat_ofNat_of_lt' hCount, Nat.mod_eq_of_lt hSmall]

/-- A creation that is answered without a resource fails without a report, and only the tally
shows it. -/
theorem failed_of_no_report_hollow :
    let names : LocalizedText := ⟨KeyMap.empty⟩
    let engine : Engine Family.category Unit :=
      { options := { reportsFailures := true }, resolver := some World.askRemote }
    let run := engine.follow (Run.start (.bare toString)) [.scriptCreate .empty]
    let after := (engine.sync run [some (Category.Draft.basic "shirts" names names)]).desk
    after.failures = [] ∧ after.tally.failed.toNat = 1 := by
  intro names engine run after
  have hSpares : engine.options.SparesRemote := by
    constructor
    · exact fun hook hHook => nomatch hHook
    · exact fun hook hHook => nomatch hHook
  have hResolver : ∀ resolver, engine.resolver = some resolver → ∀ world keys,
      Appends Call.isQuery world.remote.log (resolver world keys).2.remote.log := by
    intro resolver hSome world keys
    cases hSome
    exact .single rfl
  obtain ⟨reports, calls, hAfter, hLog, hSilent⟩ := failed_of_no_report rfl hSpares hResolver run
    [some (Category.Draft.basic "shirts" names names)]
  have hSilence : after.failures = [] := List.isEmpty_iff.mp (by decide +kernel)
  have hNone : reports = [] := (List.append_eq_nil_iff.mp (hAfter.symm.trans hSilence)).2
  have hCount : calls.countP Call.isHollow = 1 := by
    have hBefore : run.desk.world.remote.log.countP Call.isHollow = 0 := by decide +kernel
    have hHollow : after.world.remote.log.countP Call.isHollow = 1 := by decide +kernel
    rw [hLog, List.countP_append, hBefore, Nat.zero_add] at hHollow
    exact hHollow
  have hFailed := (hSilent hNone).2
  rw [hCount] at hFailed
  exact ⟨hSilence, hFailed (by decide +kernel)⟩

end Engine

end CatalogSync
