import CatalogSync.Proofs.Succeeding

/-!
# What a draft may touch

A draft that ends as created has put one new resource under its key, and a draft that ends as updated
has changed the resource under its key with the actions that were submitted last. A draft that ends
in any other way has changed nothing. This holds whatever fails on the way: a draft is compared with
a resource that an earlier draft of its batch may have left behind, and after a conflict it is tried
again at whatever has the identifier of that resource. On a tidy remote both have the key of the
draft, so no draft reaches the resource of another one.

## Main results

* `Desk.sync_touches`: what a draft changes is told by how it ends.
* `Engine.sync_confined`: between the ends of its drafts a call changes nothing, and it leaves alone
  what none of its drafts has the key of.
-/

namespace CatalogSync

variable {F : Family} {σ : Type}

/-! ## What a draft changes -/

/-- What a draft that ended in a phase has changed of the contents before it. -/
inductive Family.Touches (F : Family) (draft : F.Draft) (before : KeyMap F.Resource) :
    Phase → Remote F → Prop
  /-- The hook before creation may have changed the draft, but not its key. -/
  | created {remote : Remote F} (kept : F.Draft) (id : String)
      (hKept : F.draftKey kept = F.draftKey draft)
      (hAbsent : before.get? (F.keyOf draft) = none)
      (hAfter : remote.resources = before.insert (F.keyOf draft) (F.materialize kept id)) :
      Touches F draft before .created remote
  | updated {remote : Remote F} (stored : F.Resource) (actions : List F.Action)
      (hStored : before.get? (F.keyOf draft) = some stored)
      (hLast : remote.submitted.getLast? = some (F.keyOf draft, actions))
      (hAfter : remote.resources = before.insert (F.keyOf draft) (F.apply stored actions)) :
      Touches F draft before .updated remote
  | untouched {phase : Phase} {remote : Remote F}
      (hPhase : phase = .failed ∨ phase = .skipped ∨ phase = .upToDate)
      (hSame : remote.resources = before) : Touches F draft before phase remote

namespace Family.Touches

variable {draft : F.Draft} {before : KeyMap F.Resource} {phase : Phase} {remote : Remote F}
  {key : String}

/-- The resources of other keys are left alone. -/
theorem others (hTouches : F.Touches draft before phase remote) (hOther : key ≠ F.keyOf draft) :
    remote.resources.get? key = before.get? key := by
  cases hTouches with
  | created kept id _ _ hAfter => rw [hAfter, KeyMap.get?_insert_ne hOther]
  | updated stored actions _ _ hAfter => rw [hAfter, KeyMap.get?_insert_ne hOther]
  | untouched _ hSame => rw [hSame]

/-- A resource stays under its key, with its identifier. -/
theorem stays (hTouches : F.Touches draft before phase remote) (hAdvances : F.Advances)
    {resource : F.Resource} (hStored : before.get? key = some resource) :
    ∃ current, remote.resources.get? key = some current ∧ F.id current = F.id resource := by
  by_cases hKey : key = F.keyOf draft
  · subst hKey
    cases hTouches with
    | created kept id _ hAbsent _ =>
        rw [hStored] at hAbsent
        cases hAbsent
    | updated stored actions hFound _ hAfter =>
        obtain rfl : stored = resource := Option.some.inj (hFound.symm.trans hStored)
        rw [hAfter, KeyMap.get?_insert_self]
        exact ⟨_, rfl, hAdvances.id_apply ..⟩
    | untouched _ hSame =>
        rw [hSame]
        exact ⟨resource, hStored, rfl⟩
  · rw [hTouches.others hKey]
    exact ⟨resource, hStored, rfl⟩

end Family.Touches

/-- The update that was submitted last. -/
theorem Remote.getLast?_submitted {remote : Remote F} {old : F.Resource}
    {actions : List F.Action} :
    (remote.update old actions).2.submitted.getLast? = some (F.key old, actions) := by
  show ((remote.log ++ [_]).filterMap _).getLast? = _
  rw [List.filterMap_append]
  exact List.getLast?_concat

namespace Desk

variable {options : Options F σ} {draft : F.Draft} {desk : Desk F σ} {old current : F.Resource}

/-- Creating a draft adds one resource under its key, or changes nothing. -/
theorem create_touches (hSpares : options.SparesRemote) (hKeeps : options.KeepsKeys) :
    F.Touches draft desk.world.remote.resources (desk.create options draft).1
      (desk.create options draft).2.world.remote := by
  have hAsked := askBeforeCreate_remote hSpares desk draft
  simp only [create]
  split
  · exact .untouched (Or.inr (Or.inl rfl)) (congrArg Remote.resources hAsked)
  · rename_i kept hKept
    have hKey := draftKey_askBeforeCreate hKeeps hKept
    have hWritten : ((desk.askBeforeCreate options draft).2.submitCreation draft
        kept).2.world.remote.resources =
          (Call.create kept ((desk.askBeforeCreate options draft).2.submitCreation draft kept).1).write
            desk.world.remote.resources := by
      rw [← hAsked]
      exact Remote.create_write
    split
    · rename_i resource hAnswer
      obtain ⟨hAbsent, hNew⟩ := Remote.of_createAnswer hAnswer
      obtain ⟨id, hCreated⟩ : ∃ id, resource = F.materialize kept id := ⟨_, hNew⟩
      have hSame : F.keyOf kept = F.keyOf draft := congrArg (Option.getD · "") hKey
      rw [hAsked, hSame] at hAbsent
      refine .created kept id hKey hAbsent ?_
      rw [enterIf_world, hWritten, hAnswer, ← hSame, ← hCreated]
      rfl
    · rename_i hAnswer
      refine .untouched (Or.inl rfl) ?_
      rw [hWritten, hAnswer]
      rfl
    · rename_i fault hAnswer
      refine .untouched (Or.inl rfl) ?_
      rw [fail_world, hWritten, hAnswer]
      rfl

/-- An attempt at an update either ends the draft or is overtaken, and then changes nothing. -/
theorem attemptUpdate_touches (hSpares : options.SparesRemote) (hOwn : F.key old = F.keyOf draft) :
    (∃ phase, (desk.attemptUpdate options draft old).1 = .ended phase ∧
        F.Touches draft desk.world.remote.resources phase
          (desk.attemptUpdate options draft old).2.world.remote) ∨
      ∃ fault, (desk.attemptUpdate options draft old).1 = .overtaken fault ∧
        (desk.attemptUpdate options draft old).2.world.remote.resources =
          desk.world.remote.resources := by
  simp only [attemptUpdate]
  split
  · refine Or.inl ⟨.failed, rfl, .untouched (Or.inl rfl) ?_⟩
    rw [fail_world]
  · exact Or.inl ⟨.upToDate, rfl, .untouched (Or.inr (Or.inr rfl)) rfl⟩
  · rename_i proposed _ _
    have hAsked := @askBeforeUpdate_remote F σ options draft desk hSpares old proposed
    split
    · exact Or.inl ⟨.upToDate, rfl, .untouched (Or.inr (Or.inr rfl))
        (congrArg Remote.resources hAsked)⟩
    · generalize (desk.askBeforeUpdate options draft old proposed).1 = submitted
      generalize (desk.askBeforeUpdate options draft old proposed).2 = asked at hAsked ⊢
      have hWritten : (asked.submitUpdate draft old submitted).2.world.remote.resources =
          (Call.update old submitted (asked.submitUpdate draft old submitted).1).write
            desk.world.remote.resources := by
        rw [← hAsked]
        exact Remote.update_write
      split
      · rename_i resource hAnswer
        obtain ⟨stored, hStored, -, hUpdated⟩ := Remote.stored_of_updateAnswer hAnswer
        rw [hAsked, hOwn] at hStored
        refine Or.inl ⟨.updated, rfl, .updated stored submitted hStored ?_ ?_⟩
        · rw [enterIf_world, ← hOwn]
          exact Remote.getLast?_submitted
        · rw [enterIf_world, hWritten, hAnswer, ← hOwn, ← hUpdated]
          rfl
      · rename_i fault hAnswer
        rw [hAnswer] at hWritten
        split
        · exact Or.inr ⟨fault, rfl, hWritten⟩
        · refine Or.inl ⟨.failed, rfl, .untouched (Or.inl rfl) ?_⟩
          rw [failUpdate_world]
          exact hWritten

theorem retryUpdate_touches (hSpares : options.SparesRemote) (hOwn : F.key old = F.keyOf draft) :
    F.Touches draft desk.world.remote.resources (desk.retryUpdate options draft old).1
      (desk.retryUpdate options draft old).2.world.remote := by
  simp only [retryUpdate]
  rcases @attemptUpdate_touches F σ options draft desk old hSpares hOwn with
    ⟨phase, hEnded, hTouches⟩ | ⟨fault, hOvertaken, hSame⟩
  · rw [hEnded]
    exact hTouches
  · rw [hOvertaken]
    refine .untouched (Or.inl rfl) ?_
    rw [failUpdate_world]
    exact hSame

/-- Updating the resource of an earlier look-up changes the one that is there by now under its key,
or nothing. -/
theorem update_touches (hSpares : options.SparesRemote) (hLawful : F.Lawful)
    (hTidy : desk.world.remote.Tidy) (hOwn : F.key old = F.keyOf draft)
    (hStored : desk.world.remote.resources.get? (F.keyOf draft) = some current)
    (hId : F.id current = F.id old) :
    F.Touches draft desk.world.remote.resources (desk.update options draft old).1
      (desk.update options draft old).2.world.remote := by
  simp only [update]
  have hMoves := @attemptUpdate_moves F σ options draft desk hSpares old
  rcases @attemptUpdate_touches F σ options draft desk old hSpares hOwn with
    ⟨phase, hEnded, hTouches⟩ | ⟨fault, hOvertaken, hSame⟩
  · rw [hEnded]
    exact hTouches
  · rw [hOvertaken]
    have hOvertakenTidy := hMoves.tidy hLawful hTidy
    generalize (desk.attemptUpdate options draft old).2 = attempted at hSame hOvertakenTidy ⊢
    have hFetched : (attempted.refetch old).2.world.remote.resources =
        desk.world.remote.resources := hSame
    simp only
    split
    · rename_i latest hAnswer
      -- What has the identifier of the resource looked up is the one under the key of the draft.
      have hLatest : latest = current := by
        refine hOvertakenTidy.of_fetchAnswer (hSame ▸ hStored) ?_
        rw [hId]
        exact hAnswer
      have hLatestOwn : F.key latest = F.keyOf draft := by
        rw [hLatest]
        exact hTidy.own hStored
      rw [← hFetched]
      exact retryUpdate_touches hSpares hLatestOwn
    · refine .untouched (Or.inl rfl) ?_
      rw [failUpdate_world]
      exact hFetched
    · refine .untouched (Or.inl rfl) ?_
      rw [failUpdate_world]
      exact hFetched

/-- What a draft changes is told by how it ends. -/
theorem sync_touches (hSpares : options.SparesRemote) (hKeeps : options.KeepsKeys)
    (hLawful : F.Lawful) (hTidy : desk.world.remote.Tidy) {seen : Option F.Resource}
    (hSeen : ∀ old, seen = some old → F.key old = F.keyOf draft ∧ ∃ current,
      desk.world.remote.resources.get? (F.keyOf draft) = some current ∧ F.id current = F.id old) :
    F.Touches draft desk.world.remote.resources (desk.sync options draft seen).1
      (desk.sync options draft seen).2.world.remote := by
  unfold sync
  cases seen with
  | none => exact create_touches hSpares hKeeps
  | some old =>
      obtain ⟨hOwn, current, hStored, hId⟩ := hSeen old rfl
      exact update_touches hSpares hLawful hTidy hOwn hStored hId

end Desk

/-! ## A whole call -/

/-- The contents of the remote when the last draft ended, or at the beginning. -/
def contentsAt (initial : KeyMap F.Resource) (events : List (Event F)) : KeyMap F.Resource :=
  events.foldl (fun contents event =>
    match event with
    | .ended _ _ remote => remote.resources
    | _ => contents) initial

theorem contentsAt_ended {initial : KeyMap F.Resource} {events : List (Event F)} {draft : F.Draft}
    {phase : Phase} {remote : Remote F} :
    contentsAt initial (events ++ [.ended draft phase remote]) = remote.resources := by
  rw [contentsAt, List.foldl_concat]

theorem contentsAt_interim {initial : KeyMap F.Resource} {before after : List (Event F)}
    (hInterim : Appends Event.isInterim before after) :
    contentsAt initial after = contentsAt initial before := by
  obtain ⟨added, rfl, hAdded⟩ := hInterim
  rw [contentsAt, List.foldl_append]
  show added.foldl _ (contentsAt initial before) = _
  generalize contentsAt initial before = contents
  induction added with
  | nil => rfl
  | cons event rest ih =>
      have hEvent := hAdded event (List.mem_cons_self ..)
      rw [List.foldl_cons]
      cases event with
      | ended => cases hEvent
      | _ => exact ih fun other hOther => hAdded other (List.mem_cons_of_mem _ hOther)

/-- A desk at which, since a journal and contents, every draft that ended is one of some drafts and
has touched what its end tells, and nothing else was changed. -/
structure Confined (base : List (Event F)) (initial : KeyMap F.Resource)
    (drafts : List (Option F.Draft)) (desk : Desk F σ) : Prop where
  tidy : desk.world.remote.Tidy
  touches : ∃ added, desk.journal = base ++ added ∧
    desk.world.remote.resources = contentsAt initial added ∧
      Vouched (fun front draft phase remote => some draft ∈ drafts ∧
        F.Touches draft (contentsAt initial front) phase remote) added
  others : ∀ key, (∀ draft, some draft ∈ drafts → F.draftKey draft ≠ some key) →
    desk.world.remote.resources.get? key = initial.get? key

namespace Confined

variable {base : List (Event F)} {initial : KeyMap F.Resource} {drafts : List (Option F.Draft)}
  {desk after : Desk F σ} {options : Options F σ} {draft : F.Draft}

theorem start (hTidy : desk.world.remote.Tidy) :
    Confined desk.journal desk.world.remote.resources drafts desk where
  tidy := hTidy
  touches := ⟨[], (List.append_nil _).symm, rfl, .nil⟩
  others _ _ := rfl

/-- Nothing is touched between the ends of two drafts. -/
theorem interim (hConfined : Confined base initial drafts desk)
    (hJournal : Appends Event.isInterim desk.journal after.journal)
    (hTidy : after.world.remote.Tidy)
    (hSame : after.world.remote.resources = desk.world.remote.resources) :
    Confined base initial drafts after where
  tidy := hTidy
  touches := by
    obtain ⟨added, hBefore, hContents, hVouched⟩ := hConfined.touches
    obtain ⟨more, hAfter, hMore⟩ := hJournal
    have hInterim : Appends Event.isInterim added (added ++ more) := ⟨more, rfl, hMore⟩
    refine ⟨added ++ more, ?_, ?_, hVouched.interim hInterim⟩
    · rw [hAfter, hBefore, List.append_assoc]
    · rw [hSame, hContents, contentsAt_interim hInterim]
  others key hKey := by
    rw [hSame]
    exact hConfined.others key hKey

/-- A draft that is processed touches what its end tells. -/
theorem process (hConfined : Confined base initial drafts desk) (hSpares : options.SparesRemote)
    (hKeeps : options.KeepsKeys) (hLawful : F.Lawful) (hDraft : some draft ∈ drafts)
    (hKey : F.hasKey draft = true) {seen : Option F.Resource}
    (hSeen : ∀ old, seen = some old → F.key old = F.keyOf draft ∧ ∃ current,
      desk.world.remote.resources.get? (F.keyOf draft) = some current ∧ F.id current = F.id old) :
    Confined base initial drafts (desk.process options draft seen).2 := by
  have hTouches := Desk.sync_touches hSpares hKeeps hLawful hConfined.tidy hSeen
  have hMoves := @Desk.sync_moves F σ options draft desk hSpares seen
  refine ⟨hMoves.tidy hLawful hConfined.tidy, ?_, fun key hOther => ?_⟩
  · obtain ⟨added, hBefore, hContents, hVouched⟩ := hConfined.touches
    obtain ⟨more, hAfter, hMore⟩ := hMoves.interim
    have hInterim : Appends Event.isInterim added (added ++ more) := ⟨more, rfl, hMore⟩
    rw [hContents, ← contentsAt_interim hInterim] at hTouches
    refine ⟨added ++ more ++ [.ended draft (desk.sync options draft seen).1
      (desk.sync options draft seen).2.world.remote], ?_, ?_,
      (hVouched.interim hInterim).ended ⟨hDraft, hTouches⟩⟩
    · show (desk.sync options draft seen).2.journal ++ [_] = _
      rw [hAfter, hBefore]
      simp only [List.append_assoc]
    · rw [contentsAt_ended]
      rfl
  · have hNe : key ≠ F.keyOf draft := by
      rintro rfl
      exact hOther draft hDraft (Desk.draftKey_of_hasKey hKey)
    exact (hTouches.others hNe).trans (hConfined.others key hOther)

/-- The drafts of a batch are processed against the resources of one look-up, which stay where they
are with their identifiers. -/
theorem processAll {start found : KeyMap F.Resource} {rest : List F.Draft}
    (hConfined : Confined base initial drafts desk) (hSpares : options.SparesRemote)
    (hKeeps : options.KeepsKeys) (hLawful : F.Lawful)
    (hOwn : ∀ key old, start.get? key = some old → F.key old = key)
    (hStays : ∀ key old, start.get? key = some old → ∃ current,
      desk.world.remote.resources.get? key = some current ∧ F.id current = F.id old)
    (hDrafts : ∀ draft ∈ rest, some draft ∈ drafts ∧ F.hasKey draft = true)
    (hFound : ∀ draft ∈ rest, (F.draftKey draft).bind found.get? = start.get? (F.keyOf draft)) :
    Confined base initial drafts (Desk.processAll options found desk rest).2 := by
  induction rest generalizing desk with
  | nil => exact hConfined
  | cons draft rest ih =>
      obtain ⟨hDraft, hKey⟩ := hDrafts draft (List.mem_cons_self ..)
      have hSeen : ∀ old, (F.draftKey draft).bind found.get? = some old →
          F.key old = F.keyOf draft ∧ ∃ current,
            desk.world.remote.resources.get? (F.keyOf draft) = some current ∧
              F.id current = F.id old := by
        intro old hOld
        rw [hFound draft (List.mem_cons_self ..)] at hOld
        exact ⟨hOwn _ old hOld, hStays _ old hOld⟩
      have hTouches := Desk.sync_touches hSpares hKeeps hLawful hConfined.tidy hSeen
      refine ih (hConfined.process hSpares hKeeps hLawful hDraft hKey hSeen) (fun key old hOld => ?_)
        (fun other hOther => hDrafts other (List.mem_cons_of_mem _ hOther))
        fun other hOther => hFound other (List.mem_cons_of_mem _ hOther)
      obtain ⟨current, hStored, hId⟩ := hStays key old hOld
      obtain ⟨later, hLater, hSame⟩ := hTouches.stays hLawful.toAdvances hStored
      exact ⟨later, hLater, hSame.trans hId⟩

theorem syncBatch {batch : List F.Draft} (hConfined : Confined base initial drafts desk)
    (hSpares : options.SparesRemote) (hKeeps : options.KeepsKeys) (hLawful : F.Lawful)
    (hDrafts : ∀ draft ∈ batch, some draft ∈ drafts ∧ F.hasKey draft = true) :
    Confined base initial drafts (desk.syncBatch options batch).2 := by
  unfold Desk.syncBatch
  split
  · exact hConfined
  · have hLooked : Confined base initial drafts (desk.lookup (F.keysOf batch)).2 :=
      hConfined.interim .refl (hConfined.tidy.lookup _) rfl
    simp only
    split
    · rename_i found hAnswer
      have hSelected : found = desk.world.remote.resources.select (F.keysOf batch) := by
        have hOk : desk.world.remote.lookupAnswer (F.keysOf batch) = .ok found := hAnswer
        unfold Remote.lookupAnswer at hOk
        split at hOk
        · cases hOk
        · cases hOk
          rfl
      have hFiled : ∀ draft ∈ batch, Desk.Filed draft desk := fun draft hDraft =>
        ⟨(hDrafts draft hDraft).2, fun old hOld => hConfined.tidy.own hOld⟩
      rw [hSelected]
      exact hLooked.processAll hSpares hKeeps hLawful (fun key old => hConfined.tidy.own)
        (fun key old hOld => ⟨old, hOld, rfl⟩) hDrafts
        fun draft hDraft => Desk.found_of_filed hFiled hDraft
    · refine hLooked.interim (Desk.enterIf_journal rfl) ?_ ?_
      · rw [Desk.failMany_world]
        exact hLooked.tidy
      · rw [Desk.failMany_world]

end Confined

namespace Engine

variable {engine : Engine F σ} {run : Run F σ}

/-- Batches touch what their drafts touch. -/
theorem syncBatches_confined {base : List (Event F)} {initial : KeyMap F.Resource}
    {drafts : List (Option F.Draft)} {batches : List (List (Option F.Draft))}
    (hLawful : F.Lawful) (hPlain : engine.resolver = none) (hSpares : engine.options.SparesRemote)
    (hKeeps : engine.options.KeepsKeys)
    (hDrafts : ∀ batch ∈ batches, ∀ draft, some draft ∈ batch → some draft ∈ drafts)
    (hConfined : Confined base initial drafts run.desk) :
    Confined base initial drafts (batches.foldl engine.syncBatch run).desk := by
  induction batches generalizing run with
  | nil => exact hConfined
  | cons batch rest ih =>
      have hWorld := @Desk.screen_world F σ engine.options run.desk batch
      have hInterim : Appends Event.isInterim run.desk.journal
          (Desk.screen engine.options run.desk batch).2.journal :=
        Desk.screen_idle.journal.mono fun _ hIdle =>
          Event.isInterim_of_isNotice (Event.isNotice_of_isIdle hIdle)
      have hScreened : Confined base initial drafts
          (Desk.screen engine.options run.desk batch).2 := by
        refine hConfined.interim hInterim ?_ ?_
        · rw [hWorld]
          exact hConfined.tidy
        · rw [hWorld]
      rw [List.foldl_cons]
      refine ih (fun other hOther => hDrafts other (List.mem_cons_of_mem _ hOther)) ?_
      simp only [Engine.syncBatch, hPlain]
      refine hScreened.syncBatch hSpares hKeeps hLawful fun draft hDraft => ?_
      obtain ⟨hMem, hKey⟩ := Desk.valid_of_mem_screen hDraft
      exact ⟨hDrafts batch (List.mem_cons_self ..) draft hMem, hKey⟩

/--
Failures leave the remote untouched, and successes touch their own key only. Whatever is scripted to
fail, and whatever hooks do that keep the keys of drafts and leave the remote alone: a draft that
ends as created has added one entry, under its key, and a draft that ends as updated has changed the
entry under its key, by the actions submitted last. A draft that ends as failed, skipped or up to
date has changed nothing, and nothing is changed between the ends of two drafts. So the call leaves
every resource alone whose key none of its drafts has.
-/
theorem sync_confined {name : String} (hFamily : Family.named? name = some F)
    (hPlain : engine.resolver = none) (hSpares : engine.options.SparesRemote)
    (hKeeps : engine.options.KeepsKeys) (hTidy : run.desk.world.remote.Tidy)
    (drafts : List (Option F.Draft)) :
    ∃ added, (engine.sync run drafts).desk.journal = run.desk.journal ++ added ∧
      (∀ front draft phase remote back, added = front ++ .ended draft phase remote :: back →
        some draft ∈ drafts ∧
          F.Touches draft (contentsAt run.desk.world.remote.resources front) phase remote) ∧
      (engine.sync run drafts).desk.world.remote.resources =
        contentsAt run.desk.world.remote.resources added ∧
      ∀ key, (∀ draft, some draft ∈ drafts → F.draftKey draft ≠ some key) →
        (engine.sync run drafts).desk.world.remote.resources.get? key =
          run.desk.world.remote.resources.get? key := by
  have hDrafts : ∀ batch ∈ engine.options.batches drafts, ∀ draft, some draft ∈ batch →
      some draft ∈ drafts := by
    intro batch hMem draft hDraft
    rw [← @Options.flatten_batches F σ _ engine.options drafts]
    exact List.mem_flatten.mpr ⟨batch, hMem, hDraft⟩
  have hConfined := syncBatches_confined (Family.lawful_of_named hFamily) hPlain hSpares hKeeps
    hDrafts (Confined.start hTidy)
  obtain ⟨added, hJournal, hContents, hVouched⟩ := hConfined.touches
  exact ⟨added, hJournal, hVouched, hContents, hConfined.others⟩

/-- A journal that has an end of a draft in a phase can be split there. -/
theorem split_of_any [DecidableEq F.Draft] {journal : List (Event F)} {draft : F.Draft}
    {phase : Phase}
    (hAny : (journal.any fun event =>
      match event with
      | .ended other ending _ => decide (other = draft ∧ ending = phase)
      | _ => false) = true) :
    ∃ front remote back, journal = front ++ .ended draft phase remote :: back := by
  obtain ⟨event, hMem, hEvent⟩ := List.any_eq_true.mp hAny
  split at hEvent
  · rename_i remote
    obtain ⟨rfl, rfl⟩ := of_decide_eq_true hEvent
    obtain ⟨front, back, hJournal⟩ := List.append_of_mem hMem
    exact ⟨front, remote, back, hJournal⟩
  · cases hEvent

theorem sync_confined_shoes :
    let boots : Category.Draft := .basic "shoes" (.of "en" "Boots") (.of "en" "shoes")
    let bags : Category.Draft := .basic "bags" (.of "en" "Bags") (.of "en" "bags")
    let remote := (shoeStock.failUpdate (.conflict 1 2)).scriptCreate (.fail (.other "down"))
    let engine : Engine Family.category Unit := {}
    let run := engine.sync (Run.start { remote, notes := () }) [some boots, some bags]
    remote.Tidy ∧
      (∃ front later back, run.desk.journal = front ++ .ended boots .updated later :: back ∧
        Family.category.Touches boots (contentsAt shoeStock.resources front) .updated later) ∧
      (∃ front later back, run.desk.journal = front ++ .ended bags .failed later :: back ∧
        Family.category.Touches bags (contentsAt shoeStock.resources front) .failed later) ∧
      run.desk.world.remote.resources.get? "hats" = shoeStock.resources.get? "hats" := by
  intro boots bags remote engine run
  have hTidy : remote.Tidy := shoeStock_orderly.tidy.congr rfl rfl rfl
  have hFamily : Family.named? "category" = some Family.category := rfl
  have hHookless : engine.options.Hookless := ⟨rfl, rfl⟩
  obtain ⟨added, hJournal, hTouches, -, hOthers⟩ := @sync_confined Family.category Unit engine
    (Run.start { remote, notes := () }) _ hFamily rfl hHookless.quiet.sparesRemote
    hHookless.keepsKeys hTidy [some boots, some bags]
  obtain ⟨front, later, back, hBoots⟩ :=
    @split_of_any Family.category _ run.desk.journal boots .updated (by decide +kernel)
  obtain ⟨front', later', back', hBags⟩ :=
    @split_of_any Family.category _ run.desk.journal bags .failed (by decide +kernel)
  refine ⟨hTidy, ⟨front, later, back, hBoots, ?_⟩, ⟨front', later', back', hBags, ?_⟩, ?_⟩
  · exact (hTouches _ _ _ _ _ (hJournal.symm.trans hBoots)).2
  · exact (hTouches _ _ _ _ _ (hJournal.symm.trans hBags)).2
  · refine hOthers "hats" fun draft hDraft => ?_
    rcases List.mem_cons.mp hDraft with hFirst | hSecond
    · cases hFirst
      decide
    · cases List.mem_singleton.mp hSecond
      decide

end Engine

end CatalogSync
