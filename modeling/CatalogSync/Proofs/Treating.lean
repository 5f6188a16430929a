import CatalogSync.Proofs.Serving
import Mathlib.Data.List.Basic

/-!
# Drafts are treated as their resources tell

Where nothing is scripted and no hook is set, the resource of its key alone tells what becomes of a
draft: it is created, updated, found up to date or refused. Drafts with other keys find the
resources that they found before, so a whole call treats each draft by the resource that was there
at first.

## Main results

* `Desk.process_treats`: a draft that is processed ends as its resource tells.
* `Desk.Treats.append`: drafts with different keys are treated one list after the other.
* `Engine.sync_treats`: a call lets every draft end as its resource tells.
-/

namespace CatalogSync

variable {F : Family} {σ : Type}

/-! ## What becomes of a draft -/

/-- Whether the remote is changed for a draft that ends in the phase. -/
def Phase.isChange : Phase → Bool
  | .created | .updated => true
  | _ => false

namespace Family

/-- How a draft ends, told by the resource of its key. -/
def verdict (F : Family) (draft : F.Draft) : Option F.Resource → Phase
  | none => .created
  | some old =>
      match F.diff old draft with
      | .error _ => .failed
      | .ok [] => .upToDate
      | .ok (_ :: _) => .updated

/-- The report about a draft that is refused. -/
def complaint (F : Family) (draft : F.Draft) : Option F.Resource → Option Report
  | none => none
  | some old =>
      match F.diff old draft with
      | .error refusal => some
          ⟨s!"Failed to build update actions for {F.name} with key: '{F.keyOf draft}'. " ++
            s!"Reason: {refusal.message}", .refused refusal⟩
      | .ok _ => none

/-- What becomes of the resource of a draft. -/
inductive Brings (F : Family) (draft : F.Draft) : Option F.Resource → Option F.Resource → Prop
  | created (id : String) : Brings F draft none (some (F.materialize draft id))
  | updated {old : F.Resource} {action : F.Action} {rest : List F.Action}
      (hDiff : F.diff old draft = .ok (action :: rest)) :
      Brings F draft (some old) (some (F.apply old (action :: rest)))
  | upToDate {old : F.Resource} (hDiff : F.diff old draft = .ok []) :
      Brings F draft (some old) (some old)
  | refused {old : F.Resource} {refusal : Refusal} (hDiff : F.diff old draft = .error refusal) :
      Brings F draft (some old) (some old)

variable {draft : F.Draft} {before : Option F.Resource}

/-- A draft fails exactly when the difference to its resource is refused. -/
theorem verdict_eq_failed_iff :
    F.verdict draft before = .failed ↔
      ∃ old refusal, before = some old ∧ F.diff old draft = .error refusal := by
  cases before with
  | none => simp [verdict]
  | some old =>
      unfold verdict
      cases hDiff : F.diff old draft with
      | error refusal => simp [hDiff]
      | ok actions => cases actions <;> simp [hDiff]

end Family

/-! ## What the journal tells -/

namespace Event

/-- The draft that ended, with its phase. -/
def ending? : Event F → Option (F.Draft × Phase)
  | .ended draft phase _ => some (draft, phase)
  | _ => none

/-- The failure that was reported. -/
def failure? : Event F → Option Report
  | .failure report => some report
  | _ => none

/-- Whether an event neither ends a draft nor reports a failure. -/
def isSilent : Event F → Bool
  | .ended .. | .failure _ => false
  | _ => true

end Event

namespace Desk

/-- The drafts that ended, in order, each with its phase. -/
def endings (desk : Desk F σ) : List (F.Draft × Phase) := desk.journal.filterMap Event.ending?

/-- The failures that were reported, in order. -/
def failures (desk : Desk F σ) : List Report := desk.journal.filterMap Event.failure?

variable {options : Options F σ} {draft : F.Draft} {desk before middle after : Desk F σ}
  {drafts more : List F.Draft}

theorem endings_of_silent (hSilent : Appends Event.isSilent before.journal after.journal) :
    after.endings = before.endings :=
  hSilent.filterMap_eq fun event hEvent => by
    cases event with
    | ended => cases hEvent
    | _ => rfl

theorem failures_of_silent (hSilent : Appends Event.isSilent before.journal after.journal) :
    after.failures = before.failures :=
  hSilent.filterMap_eq fun event hEvent => by
    cases event with
    | failure => cases hEvent
    | _ => rfl

theorem fail_endings {message : String} {cause : Cause} :
    (desk.fail options message cause).endings = desk.endings := by
  unfold fail enterIf
  split
  · exact List.filterMap_append.trans (List.append_nil _)
  · rfl

theorem fail_failures {message : String} {cause : Cause} :
    (desk.fail options message cause).failures =
      desk.failures ++ if options.reportsFailures then [⟨message, cause⟩] else [] := by
  unfold fail enterIf
  split
  · exact List.filterMap_append
  · exact (List.append_nil _).symm

/-! ## Treating drafts -/

/-- The resource that is stored under the key of a draft. -/
def stored (desk : Desk F σ) (draft : F.Draft) : Option F.Resource :=
  desk.world.remote.resources.get? (F.keyOf draft)

@[simp] theorem stored_enterIf {asked : Bool} {event : Event F} :
    (desk.enterIf asked event).stored draft = desk.stored draft := by
  rw [stored, enterIf_world, stored]

/-- How drafts will end, told by their resources. -/
def outlook (desk : Desk F σ) (drafts : List F.Draft) : List (F.Draft × Phase) :=
  drafts.map fun draft => (draft, F.verdict draft (desk.stored draft))

theorem map_fst_outlook : (desk.outlook drafts).map Prod.fst = drafts := by
  rw [outlook, List.map_map]
  exact List.map_id drafts

/-- A draft will fail exactly when the difference to its resource is refused. -/
theorem failed_mem_outlook_iff (hDraft : draft ∈ drafts) :
    (draft, Phase.failed) ∈ desk.outlook drafts ↔
      ∃ old refusal, desk.stored draft = some old ∧ F.diff old draft = .error refusal := by
  rw [← Family.verdict_eq_failed_iff, outlook, List.mem_map]
  constructor
  · rintro ⟨other, -, hOther⟩
    obtain ⟨rfl, hPhase⟩ := Prod.mk.inj hOther
    exact hPhase
  · intro hFailed
    exact ⟨draft, hDraft, by rw [hFailed]⟩

/-- The reports that will be made about drafts, told by their resources. -/
def complaints (desk : Desk F σ) (options : Options F σ) (drafts : List F.Draft) : List Report :=
  if options.reportsFailures then
    drafts.filterMap fun draft => F.complaint draft (desk.stored draft)
  else []

/-- What working off a list of drafts does: each of them ends as its resource tells. -/
structure Treats (options : Options F σ) (drafts : List F.Draft) (before after : Desk F σ) :
    Prop where
  unscripted : after.world.remote.Unscripted
  brings : ∀ draft ∈ drafts, F.Brings draft (before.stored draft) (after.stored draft)
  others : ∀ key, ¬ key ∈ drafts.map F.keyOf →
    after.world.remote.resources.get? key = before.world.remote.resources.get? key
  endings : after.endings = before.endings ++ before.outlook drafts
  failures : after.failures = before.failures ++ before.complaints options drafts
  tally : after.tally = ((before.outlook drafts).map Prod.snd).foldl Tally.record before.tally
  /-- If no draft ends with a change, the remote is only asked. -/
  idle : (∀ draft ∈ drafts, (F.verdict draft (before.stored draft)).isChange = false) →
    after.world.remote.resources = before.world.remote.resources ∧
      Appends Call.isQuery before.world.remote.log after.world.remote.log

/-- Drafts with other keys than those treated find the resources that they found before. -/
theorem Treats.stored (hTreats : Treats options drafts before after)
    (hOther : ¬ F.keyOf draft ∈ drafts.map F.keyOf) : after.stored draft = before.stored draft :=
  hTreats.others _ hOther

theorem Treats.nil (hUnscripted : desk.world.remote.Unscripted) : Treats options [] desk desk where
  unscripted := hUnscripted
  brings draft hDraft := absurd hDraft List.not_mem_nil
  others _ _ := rfl
  endings := (List.append_nil _).symm
  failures := by
    unfold complaints
    split <;> exact (List.append_nil _).symm
  tally := rfl
  idle _ := ⟨rfl, .refl⟩

theorem outlook_congr (hSame : ∀ draft ∈ drafts, after.stored draft = before.stored draft) :
    after.outlook drafts = before.outlook drafts :=
  List.map_congr_left fun draft hDraft => by rw [hSame draft hDraft]

theorem complaints_congr (hSame : ∀ draft ∈ drafts, after.stored draft = before.stored draft) :
    after.complaints options drafts = before.complaints options drafts := by
  unfold complaints
  rw [List.filterMap_congr fun draft hDraft => by rw [hSame draft hDraft]]

theorem outlook_append :
    desk.outlook (drafts ++ more) = desk.outlook drafts ++ desk.outlook more := List.map_append

theorem complaints_append :
    desk.complaints options (drafts ++ more) =
      desk.complaints options drafts ++ desk.complaints options more := by
  unfold complaints
  split
  · exact List.filterMap_append
  · rfl

/-- Drafts with different keys are treated one list after the other. -/
theorem Treats.append (hFirst : Treats options drafts before middle)
    (hLast : Treats options more middle after)
    (hApart : ∀ draft ∈ more, ¬ F.keyOf draft ∈ drafts.map F.keyOf) :
    Treats options (drafts ++ more) before after := by
  -- Neither list touches the resources of the other, so each can be told from the first desk.
  have hMiddle : ∀ draft ∈ more, middle.stored draft = before.stored draft :=
    fun draft hDraft => hFirst.stored (hApart draft hDraft)
  have hAfter : ∀ draft ∈ drafts, after.stored draft = middle.stored draft := by
    intro draft hDraft
    refine hLast.stored fun hKey => ?_
    obtain ⟨other, hOther, hSame⟩ := List.mem_map.mp hKey
    exact hApart other hOther (hSame ▸ List.mem_map_of_mem hDraft)
  refine ⟨hLast.unscripted, fun draft hDraft => ?_, fun key hKey => ?_, ?_, ?_, ?_, fun hIdle => ?_⟩
  · rcases List.mem_append.mp hDraft with hMem | hMem
    · rw [hAfter draft hMem]
      exact hFirst.brings draft hMem
    · rw [← hMiddle draft hMem]
      exact hLast.brings draft hMem
  · rw [List.map_append, List.mem_append, not_or] at hKey
    exact (hLast.others key hKey.2).trans (hFirst.others key hKey.1)
  · rw [hLast.endings, hFirst.endings, outlook_congr hMiddle, outlook_append, List.append_assoc]
  · rw [hLast.failures, hFirst.failures, complaints_congr hMiddle, complaints_append,
      List.append_assoc]
  · rw [hLast.tally, hFirst.tally, outlook_congr hMiddle, outlook_append, List.map_append,
      List.foldl_append]
  · obtain ⟨hResources, hLog⟩ := hFirst.idle fun draft hDraft =>
      hIdle draft (List.mem_append_left _ hDraft)
    obtain ⟨hMore, hMoreLog⟩ := hLast.idle fun draft hDraft => by
      rw [hMiddle draft hDraft]
      exact hIdle draft (List.mem_append_right _ hDraft)
    exact ⟨hMore.trans hResources, hLog.trans hMoreLog⟩

/-! ## One draft -/

/-- What syncing a draft does before it is closed. -/
structure Brought (options : Options F σ) (draft : F.Draft) (phase : Phase)
    (before after : Desk F σ) : Prop where
  ends : phase = F.verdict draft (before.stored draft)
  unscripted : after.world.remote.Unscripted
  brings : F.Brings draft (before.stored draft) (after.stored draft)
  others : ∀ key, key ≠ F.keyOf draft →
    after.world.remote.resources.get? key = before.world.remote.resources.get? key
  endings : after.endings = before.endings
  failures : after.failures = before.failures ++ before.complaints options [draft]
  idle : phase.isChange = false → after.world.remote = before.world.remote

/-- A draft that is not refused is not reported. -/
theorem complaints_of_none (hNone : F.complaint draft (desk.stored draft) = none) :
    desk.complaints options [draft] = [] := by
  simp only [complaints, List.filterMap_cons, hNone, List.filterMap_nil, ite_self]

theorem create_brought (hHookless : options.Hookless) (hUnscripted : desk.world.remote.Unscripted)
    (hKey : F.hasKey draft = true) (hFresh : desk.stored draft = none) :
    Brought options draft (desk.create options draft).1 desk (desk.create options draft).2 := by
  have hWritten := submitCreation_of_fresh hUnscripted hKey hFresh
  have hThere : (desk.submitCreation draft draft).2.stored draft =
      some (F.materialize draft (desk.world.remote.ids desk.world.remote.issued)) := by
    rw [stored, hWritten, KeyMap.get?_insert_self]
  have hSilent : F.complaint draft (desk.stored draft) = none := by
    rw [hFresh]
    rfl
  have hSubmitted : Appends Event.isSilent desk.journal
      (desk.submitCreation draft draft).2.journal := .single rfl
  rw [create_of_fresh hHookless hUnscripted hKey hFresh]
  constructor
  case ends =>
    rw [hFresh]
    rfl
  case unscripted =>
    rw [enterIf_world]
    exact hUnscripted.create draft
  case brings =>
    rw [stored_enterIf, hThere, hFresh]
    exact .created _
  case others =>
    intro key hOther
    rw [enterIf_world, hWritten, KeyMap.get?_insert_ne hOther]
  case endings => exact endings_of_silent (hSubmitted.trans (enterIf_journal rfl))
  case failures =>
    rw [complaints_of_none hSilent, List.append_nil]
    exact failures_of_silent (hSubmitted.trans (enterIf_journal rfl))
  case idle => exact fun hIdle => nomatch hIdle

section Update

variable {old : F.Resource}

theorem update_brought_refused (hUnscripted : desk.world.remote.Unscripted)
    (hOld : desk.stored draft = some old) {refusal : Refusal}
    (hDiff : F.diff old draft = .error refusal) :
    Brought options draft (desk.update options draft old).1 desk
      (desk.update options draft old).2 := by
  have hFailed : desk.update options draft old = (.failed, desk.fail options
      (s!"Failed to build update actions for {F.name} with key: '{F.keyOf draft}'. " ++
        s!"Reason: {refusal.message}") (.refused refusal)) := by
    simp only [update, attemptUpdate, hDiff]
  rw [hFailed]
  constructor
  case ends => simp only [hOld, Family.verdict, hDiff]
  case unscripted =>
    rw [fail_world]
    exact hUnscripted
  case brings =>
    rw [fail, stored_enterIf, hOld]
    exact .refused hDiff
  case others =>
    intro key _
    rw [fail_world]
  case endings => exact fail_endings
  case failures =>
    rw [fail_failures]
    simp only [complaints, hOld, Family.complaint, hDiff, List.filterMap_cons, List.filterMap_nil]
  case idle =>
    intro _
    rw [fail_world]

theorem update_brought_upToDate (hUnscripted : desk.world.remote.Unscripted)
    (hOld : desk.stored draft = some old) (hDiff : F.diff old draft = .ok []) :
    Brought options draft (desk.update options draft old).1 desk
      (desk.update options draft old).2 := by
  have hSame : desk.update options draft old = (.upToDate, desk) := by
    simp only [update, attemptUpdate, hDiff]
  have hSilent : F.complaint draft (desk.stored draft) = none := by
    simp only [hOld, Family.complaint, hDiff]
  rw [hSame]
  constructor
  case ends => simp only [hOld, Family.verdict, hDiff]
  case unscripted => exact hUnscripted
  case brings =>
    rw [hOld]
    exact .upToDate hDiff
  case others => exact fun _ _ => rfl
  case endings => rfl
  case failures => rw [complaints_of_none hSilent, List.append_nil]
  case idle => exact fun _ => rfl

theorem update_brought_updated (hHookless : options.Hookless)
    (hUnscripted : desk.world.remote.Unscripted) (hFiled : Filed draft desk)
    (hOld : desk.stored draft = some old) {action : F.Action} {rest : List F.Action}
    (hDiff : F.diff old draft = .ok (action :: rest)) :
    Brought options draft (desk.update options draft old).1 desk
      (desk.update options draft old).2 := by
  have hKey : F.key old = F.keyOf draft := hFiled.resource old hOld
  have hStored : desk.world.remote.resources.get? (F.key old) = some old := hKey ▸ hOld
  have hWritten := @submitUpdate_of_stored F σ draft desk hUnscripted old (action :: rest) hStored
  have hThere : (desk.submitUpdate draft old (action :: rest)).2.stored draft =
      some (F.apply old (action :: rest)) := by
    rw [stored, hWritten, hKey, KeyMap.get?_insert_self]
  have hSilent : F.complaint draft (desk.stored draft) = none := by
    simp only [hOld, Family.complaint, hDiff]
  have hSubmitted : Appends Event.isSilent desk.journal
      (desk.submitUpdate draft old (action :: rest)).2.journal := .single rfl
  rw [update_of_differs hHookless hUnscripted hDiff hStored]
  constructor
  case ends => simp only [hOld, Family.verdict, hDiff]
  case unscripted =>
    rw [enterIf_world]
    exact hUnscripted.update old _
  case brings =>
    rw [stored_enterIf, hThere, hOld]
    exact .updated hDiff
  case others =>
    intro key hOther
    rw [enterIf_world, hWritten, hKey, KeyMap.get?_insert_ne hOther]
  case endings => exact endings_of_silent (hSubmitted.trans (enterIf_journal rfl))
  case failures =>
    rw [complaints_of_none hSilent, List.append_nil]
    exact failures_of_silent (hSubmitted.trans (enterIf_journal rfl))
  case idle => exact fun hIdle => nomatch hIdle

theorem update_brought (hHookless : options.Hookless) (hUnscripted : desk.world.remote.Unscripted)
    (hFiled : Filed draft desk) (hOld : desk.stored draft = some old) :
    Brought options draft (desk.update options draft old).1 desk
      (desk.update options draft old).2 := by
  cases hDiff : F.diff old draft with
  | error refusal => exact update_brought_refused hUnscripted hOld hDiff
  | ok actions =>
      cases actions with
      | nil => exact update_brought_upToDate hUnscripted hOld hDiff
      | cons action rest => exact update_brought_updated hHookless hUnscripted hFiled hOld hDiff

end Update

/-- A draft that is processed with its resource ends as the resource tells. -/
theorem process_treats (hHookless : options.Hookless) (hUnscripted : desk.world.remote.Unscripted)
    (hFiled : Filed draft desk) {old : Option F.Resource} (hOld : old = desk.stored draft) :
    Treats options [draft] desk (desk.process options draft old).2 := by
  have hBrought : Brought options draft (desk.sync options draft old).1 desk
      (desk.sync options draft old).2 := by
    cases old with
    | none => exact create_brought hHookless hUnscripted hFiled.key hOld.symm
    | some old => exact update_brought hHookless hUnscripted hFiled hOld.symm
  have hClosed : ∀ desk : Desk F σ, ∀ phase, (desk.close draft phase).endings =
      desk.endings ++ [(draft, phase)] := fun _ _ => List.filterMap_append
  have hUnreported : ∀ desk : Desk F σ, ∀ phase, (desk.close draft phase).failures =
      desk.failures := fun _ _ => List.filterMap_append.trans (List.append_nil _)
  refine ⟨hBrought.unscripted, fun other hOther => ?_, fun key hKey => ?_, ?_, ?_, ?_,
    fun hIdle => ?_⟩
  · rw [List.mem_singleton.mp hOther]
    exact hBrought.brings
  · exact hBrought.others key fun hSame => hKey (List.mem_singleton.mpr hSame)
  · show ((desk.sync options draft old).2.close draft (desk.sync options draft old).1).endings = _
    rw [hClosed, hBrought.endings, hBrought.ends]
    rfl
  · show ((desk.sync options draft old).2.close draft (desk.sync options draft old).1).failures = _
    rw [hUnreported, hBrought.failures]
  · rw [process_tally]
    show desk.tally.record (desk.sync options draft old).1 = _
    rw [hBrought.ends]
    rfl
  · have hSame := hBrought.idle
    rw [hBrought.ends] at hSame
    have hRemote : (desk.process options draft old).2.world.remote = desk.world.remote :=
      hSame (hIdle draft (List.mem_singleton_self draft))
    rw [hRemote]
    exact ⟨rfl, .refl⟩

/-! ## Batches and calls -/

theorem Filed.treats (hFiled : Filed draft before) (hTreats : Treats options drafts before after)
    (hOther : ¬ F.keyOf draft ∈ drafts.map F.keyOf) : Filed draft after :=
  ⟨hFiled.key, fun old hOld => hFiled.resource old ((hTreats.others _ hOther) ▸ hOld)⟩

theorem processAll_treats (hHookless : options.Hookless)
    (hUnscripted : desk.world.remote.Unscripted)
    (hDistinct : (drafts.map F.keyOf).Nodup) (hFiled : ∀ draft ∈ drafts, Filed draft desk)
    {found : KeyMap F.Resource}
    (hFound : ∀ draft ∈ drafts, (F.draftKey draft).bind found.get? = desk.stored draft) :
    Treats options drafts desk (processAll options found desk drafts).2 := by
  induction drafts generalizing desk with
  | nil => exact .nil hUnscripted
  | cons draft rest ih =>
      rw [List.map_cons, List.nodup_cons] at hDistinct
      have hFirst := process_treats hHookless hUnscripted (hFiled draft (List.mem_cons_self ..))
        (hFound draft (List.mem_cons_self ..))
      have hApart : ∀ other ∈ rest, ¬ F.keyOf other ∈ [draft].map F.keyOf := by
        intro other hOther hSame
        have hKey : F.keyOf other = F.keyOf draft := List.mem_singleton.mp hSame
        exact hDistinct.1 (hKey ▸ List.mem_map_of_mem hOther)
      have hRest := ih hFirst.unscripted hDistinct.2
        (fun other hOther =>
          (hFiled other (List.mem_cons_of_mem _ hOther)).treats hFirst (hApart other hOther))
        fun other hOther => by
          rw [hFirst.stored (hApart other hOther)]
          exact hFound other (List.mem_cons_of_mem _ hOther)
      exact hFirst.append hRest hApart

theorem syncBatch_treats (hHookless : options.Hookless) (hUnscripted : desk.world.remote.Unscripted)
    (hDistinct : (drafts.map F.keyOf).Nodup) (hFiled : ∀ draft ∈ drafts, Filed draft desk) :
    Treats options drafts desk (desk.syncBatch options drafts).2 := by
  unfold syncBatch
  split
  · rename_i hNone
    rw [List.isEmpty_iff.mp hNone]
    exact .nil hUnscripted
  · have hAnswer : (desk.lookup (F.keysOf drafts)).1 =
        .ok (desk.world.remote.resources.select (F.keysOf drafts)) := by
      show desk.world.remote.lookupAnswer (F.keysOf drafts) = _
      rw [Remote.lookupAnswer, hUnscripted.lookups]
    have hLooked : (desk.lookup (F.keysOf drafts)).2.world.remote.Unscripted :=
      hUnscripted.lookup (F.keysOf drafts)
    have hLookedFiled : ∀ draft ∈ drafts, Filed draft (desk.lookup (F.keysOf drafts)).2 :=
      fun draft hDraft => ⟨(hFiled draft hDraft).key, (hFiled draft hDraft).resource⟩
    have hTreats := processAll_treats hHookless hLooked hDistinct hLookedFiled
      fun draft hDraft => found_of_filed hLookedFiled hDraft
    simp only [hAnswer]
    refine ⟨hTreats.unscripted, hTreats.brings, hTreats.others, hTreats.endings, hTreats.failures,
      hTreats.tally, fun hIdle => ?_⟩
    obtain ⟨hResources, hLog⟩ := hTreats.idle hIdle
    exact ⟨hResources, (Appends.single rfl).trans hLog⟩

end Desk

namespace Engine

variable {engine : Engine F σ} {run : Run F σ} {drafts : List F.Draft}

/-! ## Calls -/

/-- Without a resolver the drafts of a batch are synced at once. -/
theorem syncBatch_plain (hPlain : engine.resolver = none)
    (hKey : ∀ draft ∈ drafts, F.hasKey draft = true) :
    engine.syncBatch run (drafts.map some) =
      run.withDesk (run.desk.syncBatch engine.options drafts).2 := by
  simp only [syncBatch, Desk.screen_of_hasKey hKey, hPlain]

theorem syncBatches_treats {batches : List (List F.Draft)} (hPlain : engine.resolver = none)
    (hHookless : engine.options.Hookless) (hUnscripted : run.desk.world.remote.Unscripted)
    (hDistinct : (batches.flatten.map F.keyOf).Nodup)
    (hFiled : ∀ draft ∈ batches.flatten, Desk.Filed draft run.desk) :
    Desk.Treats engine.options batches.flatten run.desk
      ((batches.map (List.map some)).foldl engine.syncBatch run).desk := by
  induction batches generalizing run with
  | nil => exact .nil hUnscripted
  | cons batch rest ih =>
      rw [List.flatten_cons] at hDistinct hFiled ⊢
      rw [List.map_append, List.nodup_append] at hDistinct
      have hBatch : ∀ draft ∈ batch, Desk.Filed draft run.desk := fun draft hDraft =>
        hFiled draft (List.mem_append_left _ hDraft)
      have hApart : ∀ draft ∈ rest.flatten, ¬ F.keyOf draft ∈ batch.map F.keyOf :=
        fun draft hDraft hSame => hDistinct.2.2 _ hSame _ (List.mem_map_of_mem hDraft) rfl
      have hFirst := Desk.syncBatch_treats hHookless hUnscripted hDistinct.1 hBatch
      have hRest : Desk.Treats engine.options rest.flatten
          (run.withDesk (run.desk.syncBatch engine.options batch).2).desk
          ((rest.map (List.map some)).foldl engine.syncBatch
            (run.withDesk (run.desk.syncBatch engine.options batch).2)).desk :=
        ih hFirst.unscripted hDistinct.2.1 fun draft hDraft =>
          (hFiled draft (List.mem_append_right _ hDraft)).treats hFirst (hApart draft hDraft)
      rw [List.map_cons, List.foldl_cons, syncBatch_plain hPlain fun draft hDraft =>
        (hBatch draft hDraft).key]
      exact hFirst.append hRest hApart

/-- A call of an engine without a resolver lets every draft end as its resource tells. -/
theorem sync_treats (hPlain : engine.resolver = none) (hHookless : engine.options.Hookless)
    (hUnscripted : run.desk.world.remote.Unscripted) (hDistinct : (drafts.map F.keyOf).Nodup)
    (hFiled : ∀ draft ∈ drafts, Desk.Filed draft run.desk) :
    Desk.Treats engine.options drafts run.desk (engine.sync run (drafts.map some)).desk := by
  have hWhole : (engine.options.batches drafts).flatten = drafts := Options.flatten_batches
  have hBatches : engine.options.batches (drafts.map some) =
      (engine.options.batches drafts).map (List.map some) := chunks_map
  have hTreats := @syncBatches_treats F σ engine run (engine.options.batches drafts) hPlain
    hHookless hUnscripted (hWhole.symm ▸ hDistinct) (hWhole.symm ▸ hFiled)
  rw [hWhole] at hTreats
  rw [sync, hBatches]
  exact hTreats

end Engine

end CatalogSync
