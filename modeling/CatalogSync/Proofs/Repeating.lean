import CatalogSync.Proofs.Converging
import CatalogSync.Proofs.Treating

/-!
# Syncing twice

In a family that converges, the resource that is there after a draft was created, updated or found
up to date asks for nothing more. A draft that was refused finds the same resource again and is
refused for the same reason. So a second call with the same drafts only looks.

## Main results

* `Family.Brings.again`: what a draft leaves lets it end without a change the next time.
* `Engine.sync_idempotent`: a second call changes nothing.
-/

namespace CatalogSync

variable {F : Family} {σ : Type}

/-! ## One draft twice -/

/-- The phase in which a draft ends when it is synced once more. -/
def Phase.again (phase : Phase) : Phase := if phase.isSuccess then .upToDate else phase

theorem Phase.isChange_again (phase : Phase) : phase.again.isChange = false := by
  cases phase <;> rfl

namespace Family.Brings

variable {Sound : F.Draft → Prop} {draft : F.Draft} {before after : Option F.Resource}

/-- A draft ends without a change when it is synced once more, and is refused as it was before. -/
theorem again (hConverges : F.Converges Sound) (hSound : Sound draft)
    (hBrings : F.Brings draft before after) :
    F.verdict draft after = (F.verdict draft before).again ∧
      F.complaint draft after = F.complaint draft before := by
  cases hBrings with
  | created id =>
      have hNothing := hConverges.diff_materialize draft id hSound
      simp only [verdict, complaint, hNothing, and_true]
      rfl
  | updated hDiff =>
      have hNothing := hConverges.diff_apply hSound hDiff
      simp only [verdict, complaint, hDiff, hNothing, and_true]
      rfl
  | upToDate hDiff =>
      simp only [verdict, complaint, hDiff, and_true]
      rfl
  | refused hDiff =>
      simp only [verdict, complaint, hDiff, and_true]
      rfl

/-- The resource of a draft stays filed under the key of the draft. -/
theorem key (hConverges : F.Converges Sound) (hBrings : F.Brings draft before after)
    (hBefore : ∀ old, before = some old → F.key old = F.keyOf draft) :
    ∀ resource, after = some resource → F.key resource = F.keyOf draft := by
  intro resource hResource
  cases hBrings with
  | created id =>
      cases hResource
      exact hConverges.key_materialize draft id
  | updated hDiff =>
      cases hResource
      exact (hConverges.key_apply hDiff).trans (hBefore _ rfl)
  | upToDate => exact hBefore resource hResource
  | refused => exact hBefore resource hResource

end Family.Brings

/-! ## Counting twice -/

namespace Tally

/-- A tally shows how many drafts ended in which phase. -/
theorem foldl_record (phases : List Phase) (tally : Tally) :
    phases.foldl record tally =
      ⟨tally.created + .ofNat (phases.count .created),
        tally.updated + .ofNat (phases.count .updated),
        tally.upToDate + .ofNat (phases.count .upToDate),
        tally.failed + .ofNat (phases.count .failed), tally.waiting⟩ := by
  induction phases generalizing tally with
  | nil => simp
  | cons phase rest ih =>
      rw [List.foldl_cons, ih]
      cases phase <;>
        simp [record, addFailed, UInt64.ofNat_add, UInt64.add_assoc, UInt64.add_comm]

/-- Successful drafts end up to date the next time, and failed ones fail. -/
theorem count_again (phases : List Phase) :
    (phases.map Phase.again).count .created = 0 ∧ (phases.map Phase.again).count .updated = 0 ∧
      (phases.map Phase.again).count .upToDate =
        phases.count .created + phases.count .updated + phases.count .upToDate ∧
      (phases.map Phase.again).count .failed = phases.count .failed := by
  induction phases with
  | nil => exact ⟨rfl, rfl, rfl, rfl⟩
  | cons phase rest ih =>
      obtain ⟨hCreated, hUpdated, hUpToDate, hFailed⟩ := ih
      cases phase <;>
        simp [Phase.again, Phase.isSuccess, hCreated, hUpdated, hUpToDate, hFailed] <;> omega

/-- Drafts that are synced once more are counted as up to date, or as failed if they failed. -/
theorem foldl_record_again (phases : List Phase) (tally : Tally) :
    let first := phases.foldl record {}
    (phases.map Phase.again).foldl record tally =
      { tally with
        upToDate := tally.upToDate + (first.created + first.updated + first.upToDate)
        failed := tally.failed + first.failed } := by
  intro first
  obtain ⟨hCreated, hUpdated, hUpToDate, hFailed⟩ := count_again phases
  have hFirst : first = _ := foldl_record phases {}
  rw [foldl_record, hCreated, hUpdated, hUpToDate, hFailed, hFirst]
  simp [UInt64.ofNat_add]

end Tally

namespace Engine

variable {engine : Engine F σ} {drafts : List F.Draft}

/-! ## The same call twice -/

/-- What a call leaves lets every draft end without a change the next time, and the drafts that were
refused are refused as before. -/
theorem outlook_again {Sound : F.Draft → Prop} {options : Options F σ} {before after : Desk F σ}
    (hConverges : F.Converges Sound) (hSound : ∀ draft ∈ drafts, Sound draft)
    (hTreats : Desk.Treats options drafts before after) :
    after.outlook drafts = (before.outlook drafts).map (fun ending => (ending.1, ending.2.again)) ∧
      after.complaints options drafts = before.complaints options drafts := by
  have hAgain : ∀ draft ∈ drafts,
      F.verdict draft (after.stored draft) = (F.verdict draft (before.stored draft)).again ∧
        F.complaint draft (after.stored draft) = F.complaint draft (before.stored draft) :=
    fun draft hDraft => (hTreats.brings draft hDraft).again hConverges (hSound draft hDraft)
  constructor
  · rw [Desk.outlook, Desk.outlook, List.map_map]
    exact List.map_congr_left fun draft hDraft => by rw [(hAgain draft hDraft).1]; rfl
  · unfold Desk.complaints
    rw [List.filterMap_congr fun draft hDraft => (hAgain draft hDraft).2]

/--
Syncing is idempotent. A second call with the same drafts, of the same engine or of a new one,
creates and updates nothing, and every resource stays as it is. The drafts that the first call
created, updated or found up to date are up to date, and counted so; those that failed are those
that are refused, and they fail again with the same reports.
-/
theorem sync_idempotent {Sound : F.Draft → Prop} (hFamily : F.OfCatalog Sound)
    (hPlain : engine.resolver = none) (hHookless : engine.options.Hookless) {world : World F σ}
    (hUnscripted : world.remote.Unscripted)
    (hStored : ∀ key resource, world.remote.resources.get? key = some resource →
      F.key resource = key)
    (hKey : ∀ draft ∈ drafts, F.hasKey draft = true) (hDistinct : (drafts.map F.keyOf).Nodup)
    (hSound : ∀ draft ∈ drafts, Sound draft) {later : Run F σ}
    (hLater : later.desk.world = (engine.sync (Run.start world) (drafts.map some)).desk.world) :
    let first := (engine.sync (Run.start world) (drafts.map some)).desk
    let second := (engine.sync later (drafts.map some)).desk
    Appends Call.isQuery first.world.remote.log second.world.remote.log ∧
      second.world.remote.resources = first.world.remote.resources ∧
      first.endings.map Prod.fst = drafts ∧
      (∀ draft ∈ drafts, (draft, Phase.failed) ∈ first.endings ↔
        ∃ old refusal, world.remote.resources.get? (F.keyOf draft) = some old ∧
          F.diff old draft = .error refusal) ∧
      second.endings =
        later.desk.endings ++ first.endings.map (fun ending => (ending.1, ending.2.again)) ∧
      second.failures = later.desk.failures ++ first.failures ∧
      second.tally =
        { later.desk.tally with
          upToDate := later.desk.tally.upToDate +
            (first.tally.created + first.tally.updated + first.tally.upToDate)
          failed := later.desk.tally.failed + first.tally.failed } := by
  intro first second
  have hConverges := hFamily.converges
  have hFiled : ∀ draft ∈ drafts, Desk.Filed draft (Run.start world).desk := fun draft hDraft =>
    ⟨hKey draft hDraft, fun old hOld => hStored _ old hOld⟩
  have hFirst : Desk.Treats engine.options drafts (Run.start world).desk first :=
    sync_treats hPlain hHookless hUnscripted hDistinct hFiled
  have hEndings : first.endings = (Run.start world).desk.outlook drafts := hFirst.endings
  have hFailures : first.failures = (Run.start world).desk.complaints engine.options drafts :=
    hFirst.failures
  have hTally : first.tally = (((Run.start world).desk.outlook drafts).map Prod.snd).foldl
      Tally.record {} := hFirst.tally
  -- The second call finds what the first one has left.
  have hSame : ∀ draft ∈ drafts, later.desk.stored draft = first.stored draft := fun draft _ => by
    rw [Desk.stored, hLater]
    rfl
  have hFiledLater : ∀ draft ∈ drafts, Desk.Filed draft later.desk := fun draft hDraft => by
    refine ⟨hKey draft hDraft, fun old hOld => ?_⟩
    have hBrings := hFirst.brings draft hDraft
    exact hBrings.key hConverges (hFiled draft hDraft).resource old
      ((hSame draft hDraft).symm.trans hOld)
  have hSecond : Desk.Treats engine.options drafts later.desk second :=
    sync_treats hPlain hHookless (hLater ▸ hFirst.unscripted) hDistinct hFiledLater
  obtain ⟨hOutlook, hComplaints⟩ := outlook_again hConverges hSound hFirst
  rw [← Desk.outlook_congr hSame] at hOutlook
  rw [← Desk.complaints_congr hSame] at hComplaints
  obtain ⟨hResources, hLog⟩ := hSecond.idle fun draft hDraft => by
    rw [hSame draft hDraft, ((hFirst.brings draft hDraft).again hConverges (hSound draft hDraft)).1]
    exact Phase.isChange_again _
  rw [hLater] at hResources hLog
  refine ⟨hLog, hResources, ?_, fun draft hDraft => ?_, ?_, ?_, ?_⟩
  · rw [hEndings, Desk.map_fst_outlook]
  · rw [hEndings]
    exact Desk.failed_mem_outlook_iff hDraft
  · rw [hSecond.endings, hOutlook, ← hEndings]
  · rw [hSecond.failures, hComplaints, ← hFailures]
  · rw [hSecond.tally, hOutlook, List.map_map, hTally]
    have hAgain := Tally.foldl_record_again (((Run.start world).desk.outlook drafts).map Prod.snd)
      later.desk.tally
    rw [List.map_map] at hAgain
    exact hAgain

theorem sync_idempotent_badges :
    let label := LocalizedText.of "en"
    let level (values : List (EnumValue String)) : FieldDefinition :=
      ⟨"level", label "Level", .enum values⟩
    let gold : EnumValue String := ⟨"gold", "Gold"⟩
    let tin : EnumValue String := ⟨"tin", "Tin"⟩
    let stock : List CustomType :=
      [ ⟨"1", "badge", 3, label "Badge", none, [level [gold]]⟩
      , ⟨"2", "seal", 1, label "Seal", none, [⟨"level", label "Level", .text⟩]⟩ ]
    let drafts : List CustomType.Draft :=
      [ ⟨some "badge", label "Badge", none, [level [tin, gold]]⟩
      , ⟨some "seal", label "Seal", none, [level [tin]]⟩
      , ⟨some "pin", label "Pin", none, [level [gold, tin]]⟩ ]
    let world : World Family.customType Unit :=
      { remote := stock.foldl Remote.insert { ids := toString }, notes := () }
    let engine : Engine Family.customType Unit :=
      { options := { batchSize := 2, batchSize_pos := by decide, reportsFailures := true } }
    let once := engine.sync (Run.start world) (drafts.map some)
    let twice := engine.sync once (drafts.map some)
    once.desk.tally = ⟨1, 1, 0, 1, 0⟩ ∧ twice.desk.tally = ⟨1, 1, 2, 2, 0⟩ ∧
      twice.desk.failures = once.desk.failures ++ once.desk.failures ∧
      twice.desk.world.remote.resources = once.desk.world.remote.resources := by
  intro label level gold tin stock drafts world engine once twice
  have hStored : ∀ key resource, world.remote.resources.get? key = some resource →
      Family.customType.key resource = key := by
    intro key resource hGet
    have hInserted : ((KeyMap.empty.insert "badge" stock[0]).insert "seal" stock[1]).get? key =
        some resource := hGet
    rw [KeyMap.get?_insert, KeyMap.get?_insert] at hInserted
    split at hInserted
    · rename_i hSeal
      cases hInserted
      exact hSeal.symm
    · split at hInserted
      · rename_i hBadge
        cases hInserted
        exact hBadge.symm
      · cases hInserted
  have hFields : ∀ draft ∈ drafts, (draft.fieldDefinitions.map FieldDefinition.name).Nodup := by
    decide +kernel
  have hValues : ∀ draft ∈ drafts, ∀ field ∈ draft.fieldDefinitions,
      field.fieldType.WellKeyed := by
    decide +kernel
  have hTally : once.desk.tally = ⟨1, 1, 0, 1, 0⟩ := by decide +kernel
  obtain ⟨-, hResources, -, -, -, hFailures, hTwice⟩ :=
    @sync_idempotent Family.customType Unit engine drafts _ .customType rfl ⟨rfl, rfl⟩ world
      ⟨rfl, rfl, rfl, rfl⟩ hStored (by decide +kernel) (by decide +kernel)
      (fun draft hDraft => ⟨hFields draft hDraft, hValues draft hDraft⟩) once rfl
  rw [hTally] at hTwice
  exact ⟨hTally, hTwice, hFailures, hResources⟩

end Engine

end CatalogSync
