import CatalogSync.Proofs.Serving
import CatalogSync.Proofs.Tidying

/-!
# What success tells about the remote

The drafts of a batch are compared with the resources of one look-up, which an earlier draft of the
batch may have left behind. A draft that submits an update on such a resource is told so by its
version, and is compared once more with the resource that is there. A draft that asks for nothing
submits nothing, so nothing tells: it ends up to date although the resource may differ from it by
now.

## Main results

* `Remote.Orderly`: the remotes on which a resource is found again by its identifier.
* `Desk.Tracked.sync_deals`: how a draft ends that is compared with the resource of an earlier
  look-up.
* `Desk.Descends.update`, `Desk.Tracked.process`: while a batch is processed, a resource differs
  from the one looked up only after an update for a draft with its key.
* `Engine.success_matches`: a draft that ends in success is matched by the resource of its key,
  unless it was found up to date behind another draft of its batch.
-/

namespace CatalogSync

variable {F : Family} {σ : Type}

/-! ## Remotes in order -/

/--
A remote that answers as it is asked. Its resources are filed under their keys and differ in their
identifiers, from each other and from those that are still to be given out.
-/
structure Remote.Orderly (remote : Remote F) : Prop extends remote.Unscripted where
  own : ∀ {key resource}, remote.resources.get? key = some resource → F.key resource = key
  apart : ∀ {key other left right}, remote.resources.get? key = some left →
    remote.resources.get? other = some right → F.id left = F.id right → key = other
  fresh : ∀ {key resource}, remote.resources.get? key = some resource →
    ∀ n, remote.issued ≤ n → F.id resource ≠ remote.ids n
  distinct : Function.Injective remote.ids

namespace Remote.Orderly

variable {remote after : Remote F} {draft : F.Draft} {old current : F.Resource} {key : String}

theorem tidy (hOrderly : remote.Orderly) : remote.Tidy :=
  ⟨hOrderly.own, hOrderly.apart, hOrderly.fresh, hOrderly.distinct⟩

/-- A tidy remote that answers as it is asked is in order. -/
theorem of_tidy (hUnscripted : remote.Unscripted) (hTidy : remote.Tidy) : remote.Orderly :=
  ⟨hUnscripted, hTidy.own, hTidy.apart, hTidy.fresh, hTidy.distinct⟩

/-- A remote stays in order while its resources stay. -/
theorem congr (hOrderly : remote.Orderly) (hUnscripted : after.Unscripted)
    (hResources : after.resources = remote.resources) (hIssued : after.issued = remote.issued)
    (hIds : after.ids = remote.ids) : after.Orderly :=
  .of_tidy hUnscripted (hOrderly.tidy.congr hResources hIssued hIds)

theorem lookup (hOrderly : remote.Orderly) (keys : KeySet) : (remote.lookup keys).2.Orderly :=
  .of_tidy (hOrderly.toUnscripted.lookup keys) (hOrderly.tidy.lookup keys)

theorem fetch (hOrderly : remote.Orderly) (id : String) : (remote.fetch id).2.Orderly := by
  refine .of_tidy ⟨hOrderly.lookups, ?_, hOrderly.creations, hOrderly.updates⟩
    (hOrderly.tidy.fetch id)
  show remote.fetchScript.tail = []
  rw [hOrderly.fetches]
  rfl

/-- A resource is found by its identifier. -/
theorem fetchAnswer_of_stored (hOrderly : remote.Orderly)
    (hStored : remote.resources.get? key = some current) :
    remote.fetchAnswer (F.id current) = .ok (some current) := by
  rw [Remote.fetchAnswer, hOrderly.fetches]
  exact congrArg Except.ok (hOrderly.tidy.find?_of_stored hStored)

/-- A remote stays in order when a new draft is created. -/
theorem create (hOrderly : remote.Orderly) (hAdvances : F.Advances)
    (hOwn : ∀ id, F.key (F.materialize draft id) = F.keyOf draft)
    (hKey : F.draftKey draft = some (F.keyOf draft))
    (hFresh : remote.resources.get? (F.keyOf draft) = none) :
    (remote.create draft).2.Orderly ∧
      (remote.create draft).2.resources = remote.resources.insert (F.keyOf draft)
        (F.materialize draft (remote.ids remote.issued)) := by
  refine ⟨.of_tidy (hOrderly.toUnscripted.create draft) (hOrderly.tidy.create hAdvances hOwn), ?_⟩
  rw [Remote.create_write, Remote.creation,
    Remote.createAnswer_of_fresh hOrderly.creations hKey hFresh]
  rfl

/-- A remote stays in order when a resource is updated. -/
theorem update (hOrderly : remote.Orderly) (hAdvances : F.Advances) (old : F.Resource)
    (actions : List F.Action) : (remote.update old actions).2.Orderly :=
  .of_tidy (hOrderly.toUnscripted.update old actions) (hOrderly.tidy.update hAdvances old actions)

end Remote.Orderly

/-! ## What the journal tells of ended drafts -/

/-- Whether an event does not end a draft. -/
def Event.isInterim : Event F → Bool
  | .ended .. => false
  | _ => true

/-- Whether an event ends a draft in success that the resource of its key does not match. -/
def Event.isHollow : Event F → Bool
  | .ended draft phase remote =>
      phase.isSuccess && !(remote.resources.get? (F.keyOf draft)).any fun resource =>
        match F.diff resource draft with
        | .ok [] => true
        | _ => false
  | _ => false

/-- No resource of the key matches a draft whose success is hollow. -/
theorem Event.of_isHollow {event : Event F} (hHollow : event.isHollow = true) :
    ∃ draft phase remote, event = .ended draft phase remote ∧ phase.isSuccess = true ∧
      ¬ ∃ resource, remote.resources.get? (F.keyOf draft) = some resource ∧
        F.diff resource draft = .ok [] := by
  cases event with
  | ended draft phase remote =>
      obtain ⟨hSuccess, hMissed⟩ := Bool.and_eq_true_iff.mp hHollow
      refine ⟨draft, phase, remote, rfl, hSuccess, fun ⟨resource, hStored, hMatches⟩ => ?_⟩
      simp [hStored, hMatches] at hMissed
  | _ => cases hHollow

theorem Event.isInterim_of_isNotice {event : Event F} (hNotice : event.isNotice = true) :
    event.isInterim = true := by
  cases event with
  | ended => cases hNotice
  | _ => rfl

/-- An item of two lists put together is in one of them, at the same place. -/
theorem split_append {α : Type} {before added front back : List α} {item : α}
    (hSplit : before ++ added = front ++ item :: back) :
    (∃ rest, before = front ++ item :: rest) ∨
      ∃ gap, front = before ++ gap ∧ added = gap ++ item :: back := by
  rcases List.append_eq_append_iff.mp hSplit with ⟨gap, hFront, hAdded⟩ | ⟨rest, hBefore, hItem⟩
  · exact Or.inr ⟨gap, hFront, hAdded⟩
  · cases rest with
    | nil => exact Or.inr ⟨[], by simpa using hBefore.symm, hItem.symm⟩
    | cons head rest =>
        obtain ⟨rfl, -⟩ := List.cons.inj hItem
        exact Or.inl ⟨rest, hBefore⟩

/-- Every draft that a journal ends is vouched for by what the journal held at that moment. -/
def Vouched (Good : List (Event F) → F.Draft → Phase → Remote F → Prop)
    (journal : List (Event F)) : Prop :=
  ∀ front draft phase remote back, journal = front ++ .ended draft phase remote :: back →
    Good front draft phase remote

namespace Vouched

variable {Good : List (Event F) → F.Draft → Phase → Remote F → Prop}
  {journal later : List (Event F)}

theorem nil : Vouched Good [] := by
  intro front draft phase remote back hSplit
  exact absurd hSplit.symm (by simp)

/-- Events that end no draft need nothing. -/
theorem interim (hVouched : Vouched Good journal)
    (hAppends : Appends Event.isInterim journal later) : Vouched Good later := by
  obtain ⟨added, rfl, hInterim⟩ := hAppends
  intro front draft phase remote back hSplit
  rcases split_append hSplit with ⟨rest, hBefore⟩ | ⟨gap, -, hAdded⟩
  · exact hVouched front draft phase remote rest hBefore
  · have hEnded := hInterim (.ended draft phase remote) (hAdded ▸ by simp)
    cases hEnded

/-- A draft that ends has to be vouched for. -/
theorem ended (hVouched : Vouched Good journal) {draft : F.Draft} {phase : Phase}
    {remote : Remote F} (hGood : Good journal draft phase remote) :
    Vouched Good (journal ++ [.ended draft phase remote]) := by
  intro front other otherPhase otherRemote back hSplit
  rcases split_append hSplit with ⟨rest, hBefore⟩ | ⟨gap, rfl, hAdded⟩
  · exact hVouched front other otherPhase otherRemote rest hBefore
  · cases gap with
    | nil =>
        cases hAdded
        rw [List.append_nil]
        exact hGood
    | cons event rest =>
        obtain ⟨-, hNone⟩ := List.cons.inj hAdded
        exact absurd hNone.symm (by simp)

end Vouched

/-! ## One draft -/

/--
How a draft ends that is compared with the resource seen at an earlier look-up, and what becomes of
the resource that is there.
-/
inductive Family.Ends (F : Family) (draft : F.Draft) (seen : Option F.Resource) :
    Option F.Resource → Phase → Option F.Resource → Prop
  | failed (current : Option F.Resource) : Ends F draft seen current .failed current
  | created (id : String) : Ends F draft seen none .created (some (F.materialize draft id))
  | updated {current : F.Resource} {actions : List F.Action}
      (hDiff : F.diff current draft = .ok actions) :
      Ends F draft seen (some current) .updated (some (F.apply current actions))
  | upToDate {current : F.Resource} (hDiff : F.diff current draft = .ok []) :
      Ends F draft seen (some current) .upToDate (some current)
  /-- The draft asked nothing of a resource that is no longer there. -/
  | overlooked {old current : F.Resource} (hSeen : seen = some old) (hMoved : current ≠ old) :
      Ends F draft seen (some current) .upToDate (some current)

namespace Desk

variable {options : Options F σ} {draft : F.Draft} {desk middle after : Desk F σ}
  {seen : Option F.Resource} {old current : F.Resource} {phase : Phase}

/-- What syncing a draft does that is compared with the resource of an earlier look-up. -/
structure Deals (draft : F.Draft) (seen : Option F.Resource) (phase : Phase)
    (before after : Desk F σ) : Prop where
  ends : F.Ends draft seen (before.world.remote.resources.get? (F.keyOf draft)) phase
    (after.world.remote.resources.get? (F.keyOf draft))
  orderly : after.world.remote.Orderly
  others : ∀ key, key ≠ F.keyOf draft →
    after.world.remote.resources.get? key = before.world.remote.resources.get? key

/-- A draft that changes nothing leaves the remote in order. -/
theorem Deals.of_same {before : Desk F σ} (hOrderly : after.world.remote.Orderly)
    (hSame : after.world.remote.resources = before.world.remote.resources)
    (hEnds : F.Ends draft seen (before.world.remote.resources.get? (F.keyOf draft)) phase
      (before.world.remote.resources.get? (F.keyOf draft))) :
    Deals draft seen phase before after := by
  refine ⟨?_, hOrderly, fun key _ => ?_⟩
  · rw [hSame]
    exact hEnds
  · rw [hSame]

/-- Only the resources matter from which a draft is started. -/
theorem Deals.congr (hDeals : Deals draft seen phase middle after)
    (hSame : middle.world.remote.resources = desk.world.remote.resources) :
    Deals draft seen phase desk after := by
  refine ⟨?_, hDeals.orderly, fun key hOther => ?_⟩
  · rw [← hSame]
    exact hDeals.ends
  · rw [← hSame]
    exact hDeals.others key hOther

/-- An attempt at the resource that is there ends the draft. -/
theorem attemptUpdate_of_stored (hHookless : options.Hookless) (hAdvances : F.Advances)
    (hOrderly : desk.world.remote.Orderly) (seen : Option F.Resource)
    (hStored : desk.world.remote.resources.get? (F.keyOf draft) = some current) :
    ∃ phase, (desk.attemptUpdate options draft current).1 = .ended phase ∧
      Deals draft seen phase desk (desk.attemptUpdate options draft current).2 := by
  have hOwn : F.key current = F.keyOf draft := hOrderly.own hStored
  cases hDiff : F.diff current draft with
  | error refusal =>
      simp only [attemptUpdate, hDiff]
      refine ⟨.failed, rfl, .of_same ?_ ?_ (.failed _)⟩
      · rw [fail_world]
        exact hOrderly
      · rw [fail_world]
  | ok actions =>
      cases actions with
      | nil =>
          simp only [attemptUpdate, hDiff]
          refine ⟨.upToDate, rfl, .of_same hOrderly rfl ?_⟩
          rw [hStored]
          exact .upToDate hDiff
      | cons action rest =>
          have hHeld : desk.world.remote.resources.get? (F.key current) = some current :=
            hOwn ▸ hStored
          have hAnswer : (desk.submitUpdate draft current (action :: rest)).1 =
              .ok (F.apply current (action :: rest)) :=
            Remote.updateAnswer_of_stored hOrderly.updates hHeld
          have hWritten := @submitUpdate_of_stored F σ draft desk hOrderly.toUnscripted current
            (action :: rest) hHeld
          simp only [attemptUpdate, hDiff, askBeforeUpdate_of_hookless hHookless, hAnswer]
          refine ⟨.updated, rfl, ?_, ?_, fun key hOther => ?_⟩
          · rw [enterIf_world, hWritten, hOwn, hStored, KeyMap.get?_insert_self]
            exact .updated hDiff
          · rw [enterIf_world]
            exact hOrderly.update hAdvances current (action :: rest)
          · rw [enterIf_world, hWritten, hOwn, KeyMap.get?_insert_ne hOther]

/-- An update that the version tells to be late is tried again at the resource that is there. -/
theorem update_of_moved (hHookless : options.Hookless) (hOrderly : desk.world.remote.Orderly)
    (hAdvances : F.Advances)
    (hStored : desk.world.remote.resources.get? (F.keyOf draft) = some current)
    (hOwn : F.key old = F.keyOf draft) (hId : F.id current = F.id old)
    (hBehind : F.version current ≠ F.version old) {action : F.Action} {rest : List F.Action}
    (hDiff : F.diff old draft = .ok (action :: rest)) :
    ∃ middle : Desk F σ, middle.world.remote.Orderly ∧
      middle.world.remote.resources = desk.world.remote.resources ∧
      desk.update options draft old = middle.retryUpdate options draft current := by
  have hConflict : (desk.submitUpdate draft old (action :: rest)).1 =
      .error (.conflict (F.version old) (F.version current)) := by
    show desk.world.remote.updateAnswer old (action :: rest) = _
    rw [Remote.updateAnswer, hOrderly.updates, hOwn]
    simp only [hStored, if_neg hBehind]
  have hSubmitted := hOrderly.update hAdvances old (action :: rest)
  have hKept : (desk.submitUpdate draft old (action :: rest)).2.world.remote.resources =
      desk.world.remote.resources := by
    show (desk.world.remote.update old (action :: rest)).2.resources = _
    have hAnswer : (desk.world.remote.update old (action :: rest)).1 =
        .error (.conflict (F.version old) (F.version current)) := hConflict
    rw [Remote.update_resources, hAnswer]
  have hFetched : ((desk.submitUpdate draft old (action :: rest)).2.refetch old).1 =
      .ok (some current) := by
    show (desk.world.remote.update old (action :: rest)).2.fetchAnswer (F.id old) = _
    rw [← hId]
    exact hSubmitted.fetchAnswer_of_stored ((congrArg (·.get? (F.keyOf draft)) hKept).trans hStored)
  have hAttempt : desk.attemptUpdate options draft old =
      (.overtaken (.conflict (F.version old) (F.version current)),
        (desk.submitUpdate draft old (action :: rest)).2) := by
    simp only [attemptUpdate, hDiff, askBeforeUpdate_of_hookless hHookless, hConflict,
      RemoteFault.isConflict, if_pos]
  refine ⟨((desk.submitUpdate draft old (action :: rest)).2.refetch old).2,
    hSubmitted.fetch (F.id old), hKept, ?_⟩
  simp only [update, hAttempt, hFetched]

/-- A draft that is to update a resource deals with the one that is there, or overlooks it. -/
theorem update_deals (hHookless : options.Hookless) (hAdvances : F.Advances)
    (hOrderly : desk.world.remote.Orderly)
    (hStored : desk.world.remote.resources.get? (F.keyOf draft) = some current)
    (hOwn : F.key old = F.keyOf draft) (hId : F.id current = F.id old)
    (hVersion : F.version current = F.version old → current = old) :
    Deals draft (some old) (desk.update options draft old).1 desk
      (desk.update options draft old).2 := by
  by_cases hSame : current = old
  · obtain ⟨phase, hPhase, hDeals⟩ :=
      attemptUpdate_of_stored hHookless hAdvances hOrderly (some old) hStored
    rw [hSame] at hPhase hDeals
    simp only [update, hPhase]
    exact hDeals
  · cases hDiff : F.diff old draft with
    | error refusal =>
        simp only [update, attemptUpdate, hDiff]
        refine .of_same ?_ ?_ (.failed _)
        · rw [fail_world]
          exact hOrderly
        · rw [fail_world]
    | ok actions =>
        cases actions with
        | nil =>
            simp only [update, attemptUpdate, hDiff]
            refine .of_same hOrderly rfl ?_
            rw [hStored]
            exact .overlooked rfl hSame
        | cons action rest =>
            have hBehind : F.version current ≠ F.version old := fun hEq => hSame (hVersion hEq)
            obtain ⟨middle, hMiddle, hResources, hRetry⟩ :=
              update_of_moved hHookless hOrderly hAdvances hStored hOwn hId hBehind hDiff
            have hStill : middle.world.remote.resources.get? (F.keyOf draft) = some current := by
              rw [hResources]
              exact hStored
            obtain ⟨phase, hPhase, hDeals⟩ :=
              attemptUpdate_of_stored hHookless hAdvances hMiddle (some old) hStill
            rw [hRetry]
            simp only [retryUpdate, hPhase]
            exact hDeals.congr hResources

/-- A draft without a resource is created, unless there is one by now. -/
theorem create_deals (hHookless : options.Hookless) (hAdvances : F.Advances)
    (hMaterialize : ∀ id, F.key (F.materialize draft id) = F.keyOf draft)
    (hOrderly : desk.world.remote.Orderly) (hKey : F.hasKey draft = true) :
    Deals draft none (desk.create options draft).1 desk (desk.create options draft).2 := by
  have hSet := draftKey_of_hasKey hKey
  cases hFresh : desk.world.remote.resources.get? (F.keyOf draft) with
  | none =>
      obtain ⟨hCreated, hWritten⟩ := hOrderly.create hAdvances hMaterialize hSet hFresh
      rw [create_of_fresh hHookless hOrderly.toUnscripted hKey hFresh]
      refine ⟨?_, ?_, fun key hOther => ?_⟩
      · rw [enterIf_world, hFresh]
        show F.Ends draft none none .created
          ((desk.world.remote.create draft).2.resources.get? (F.keyOf draft))
        rw [hWritten, KeyMap.get?_insert_self]
        exact .created _
      · rw [enterIf_world]
        exact hCreated
      · rw [enterIf_world]
        show (desk.world.remote.create draft).2.resources.get? key = _
        rw [hWritten, KeyMap.get?_insert_ne hOther]
  | some current =>
      obtain ⟨fault, hRejected⟩ : ∃ fault, desk.world.remote.createAnswer draft = .error fault := by
        have hTaken : desk.world.remote.resources.contains (F.keyOf draft) = true := by
          rw [KeyMap.contains, hFresh]
          rfl
        simp [Remote.createAnswer, hOrderly.creations, hSet, hTaken]
      have hKept : (desk.world.remote.create draft).2.resources = desk.world.remote.resources := by
        rw [Remote.create_write, Remote.creation, hRejected]
        rfl
      have hIssued : (desk.world.remote.create draft).2.issued = desk.world.remote.issued := by
        have hCall : (desk.world.remote.create draft).1 = .error fault := hRejected
        rw [Remote.create_issued, hCall]
      have hStill : (desk.world.remote.create draft).2.Orderly :=
        hOrderly.congr (hOrderly.toUnscripted.create draft) hKept hIssued rfl
      have hAnswer : (desk.submitCreation draft draft).1 = .error fault := hRejected
      simp only [create, askBeforeCreate_of_hookless hHookless, hAnswer]
      refine .of_same ?_ ?_ (.failed _)
      · rw [fail_world]
        exact hStill
      · rw [fail_world]
        exact hKept

/-! ## The drafts of a batch -/

/-- An earlier draft of a batch ended with an update of the resource of a key. -/
def UpdatedFor (earlier : List F.Draft) (key : String) (journal : List (Event F)) : Prop :=
  ∃ other ∈ earlier, F.keyOf other = key ∧ ∃ remote, Event.ended other .updated remote ∈ journal

theorem UpdatedFor.mono {earlier more : List F.Draft} {key : String}
    {journal later : List (Event F)} (hUpdated : UpdatedFor earlier key journal)
    (hDrafts : ∀ other ∈ earlier, other ∈ more) (hJournal : ∀ event ∈ journal, event ∈ later) :
    UpdatedFor more key later := by
  obtain ⟨other, hOther, hKey, remote, hEvent⟩ := hUpdated
  exact ⟨other, hDrafts other hOther, hKey, remote, hJournal _ hEvent⟩

/-- A version that has moved on by few updates is another one. -/
theorem count_eq_zero_of_version {version : UInt64} {count : Nat} (hCount : count < 2 ^ 64)
    (hSame : version + .ofNat count = version) : count = 0 := by
  have hNat := congrArg UInt64.toNat hSame
  rw [UInt64.toNat_add, UInt64.toNat_ofNat'] at hNat
  have hLess := UInt64.toNat_lt version
  omega

/--
A resource is the one of an earlier look-up, a number of updates later. It keeps its identifier and
moves on by one version for each update, and the updates were made for drafts with its key.
-/
structure Descends (done : List F.Draft) (journal : List (Event F)) (key : String)
    (old current : F.Resource) (count : Nat) : Prop where
  id : F.id current = F.id old
  version : F.version current = F.version old + .ofNat count
  count_le : count ≤ done.length
  same : count = 0 → current = old
  updated : count ≠ 0 → UpdatedFor done key journal

namespace Descends

variable {done : List F.Draft} {journal later : List (Event F)} {key : String} {count : Nat}

theorem refl : Descends [] journal key old old 0 where
  id := rfl
  version := (UInt64.add_zero _).symm
  count_le := Nat.le_refl 0
  same _ := rfl
  updated hNonzero := absurd rfl hNonzero

/-- As long as the resource is the same one, so is the number of its updates. -/
theorem mono (hDescends : Descends done journal key old current count)
    (hJournal : ∀ event ∈ journal, event ∈ later) :
    Descends (done ++ [draft]) later key old current count where
  id := hDescends.id
  version := hDescends.version
  count_le := by
    rw [List.length_append]
    exact Nat.le_trans hDescends.count_le (Nat.le_add_right ..)
  same := hDescends.same
  updated hNonzero :=
    (hDescends.updated hNonzero).mono (fun _ => List.mem_append_left _) hJournal

/-- One more update is made for a draft that ends with it. -/
theorem update (hDescends : Descends done journal (F.keyOf draft) old current count)
    (hAdvances : F.Advances) (actions : List F.Action) {remote : Remote F}
    (hEnded : Event.ended draft .updated remote ∈ later) :
    Descends (done ++ [draft]) later (F.keyOf draft) old (F.apply current actions)
      (count + 1) where
  id := (hAdvances.id_apply current actions).trans hDescends.id
  version := by
    rw [hAdvances.version_apply, hDescends.version, UInt64.ofNat_add, UInt64.add_assoc]
    rfl
  count_le := by
    rw [List.length_append]
    exact Nat.succ_le_succ hDescends.count_le
  same hZero := absurd hZero (Nat.succ_ne_zero count)
  updated _ := ⟨draft, List.mem_append_right _ (List.mem_singleton_self _), rfl, remote, hEnded⟩

/-- A resource with the version that was looked up is the one that was looked up. -/
theorem eq_of_version (hDescends : Descends done journal key old current count)
    (hDone : done.length < 2 ^ 64) (hSame : F.version current = F.version old) :
    current = old := by
  rw [hDescends.version] at hSame
  exact hDescends.same
    (count_eq_zero_of_version (Nat.lt_of_le_of_lt hDescends.count_le hDone) hSame)

end Descends

/--
While the drafts of a batch are processed, every resource that was looked up at the start is still
there, some updates later, so its version tells whether it has moved.
-/
structure Tracked (start : KeyMap F.Resource) (done : List F.Draft) (desk : Desk F σ) : Prop where
  orderly : desk.world.remote.Orderly
  moved : ∀ key old, start.get? key = some old → ∃ current count,
    desk.world.remote.resources.get? key = some current ∧
      Descends done desk.journal key old current count

theorem Tracked.start (hOrderly : desk.world.remote.Orderly) :
    Tracked desk.world.remote.resources [] desk :=
  ⟨hOrderly, fun _ old hOld => ⟨old, 0, hOld, .refl⟩⟩

variable {start : KeyMap F.Resource} {done : List F.Draft}

/-- A draft deals with the resource that is there, compared with the one looked up at the start. -/
theorem Tracked.sync_deals (hTracked : Tracked start done desk) (hHookless : options.Hookless)
    (hAdvances : F.Advances) (hMaterialize : ∀ id, F.key (F.materialize draft id) = F.keyOf draft)
    (hOwn : ∀ key old, start.get? key = some old → F.key old = key)
    (hDone : done.length < 2 ^ 64) (hKey : F.hasKey draft = true)
    (hSeen : seen = start.get? (F.keyOf draft)) :
    Deals draft seen (desk.sync options draft seen).1 desk (desk.sync options draft seen).2 := by
  unfold sync
  cases seen with
  | none => exact create_deals hHookless hAdvances hMaterialize hTracked.orderly hKey
  | some old =>
      obtain ⟨current, count, hStored, hDescends⟩ := hTracked.moved _ old hSeen.symm
      exact update_deals hHookless hAdvances hTracked.orderly hStored (hOwn _ _ hSeen.symm)
        hDescends.id (hDescends.eq_of_version hDone)

/-- Syncing a draft ends none in the journal. -/
theorem Moves.interim {before : Desk F σ} (hMoves : Moves options draft before after) :
    Appends Event.isInterim before.journal after.journal := by
  refine keeps_of_reflTransGen
    (P := fun desk => Appends Event.isInterim before.journal desk.journal) hMoves ?_ .refl
  intro earlier later hMove hBefore
  cases hMove with
  | note event hNotice => exact hBefore.trans (.single (Event.isInterim_of_isNotice hNotice))
  | remember => exact hBefore
  | fetch => exact hBefore
  | create => exact hBefore.trans (.single rfl)
  | update => exact hBefore.trans (.single rfl)

/--
What a draft that ended in success stands for: the resource of its key asks for nothing, or the
draft was found up to date behind an earlier one that had updated the resource.
-/
def Confirmed (earlier : List F.Draft) (journal : List (Event F)) (draft : F.Draft) (phase : Phase)
    (remote : Remote F) : Prop :=
  ∃ resource, remote.resources.get? (F.keyOf draft) = some resource ∧
    (F.diff resource draft = .ok [] ∨
      phase = .upToDate ∧ UpdatedFor earlier (F.keyOf draft) journal)

variable {Sound : F.Draft → Prop}

section

variable (hHookless : options.Hookless) (hAdvances : F.Advances) (hConverges : F.Converges Sound)
  (hOwn : ∀ key old, start.get? key = some old → F.key old = key)
include hHookless hAdvances hConverges hOwn

/-- A draft that ends in success is confirmed by what was done for the drafts before it. -/
theorem Tracked.confirmed (hTracked : Tracked start done desk) (hDone : done.length < 2 ^ 64)
    (hKey : F.hasKey draft = true) (hSound : Sound draft)
    (hSeen : seen = start.get? (F.keyOf draft))
    (hSuccess : (desk.sync options draft seen).1.isSuccess = true) :
    Confirmed done (desk.sync options draft seen).2.journal draft (desk.sync options draft seen).1
      (desk.sync options draft seen).2.world.remote := by
  obtain ⟨added, hJournal, -⟩ :=
    (@sync_moves F σ options draft desk hHookless.quiet.sparesRemote seen).interim
  have hEnds := (hTracked.sync_deals hHookless hAdvances (hConverges.key_materialize draft) hOwn
    hDone hKey hSeen).ends
  unfold Confirmed
  generalize (desk.sync options draft seen).1 = phase at hEnds hSuccess ⊢
  generalize (desk.sync options draft seen).2.world.remote.resources.get? (F.keyOf draft) = left
    at hEnds ⊢
  generalize hCurrent : desk.world.remote.resources.get? (F.keyOf draft) = before at hEnds
  cases hEnds with
  | failed => cases hSuccess
  | created id => exact ⟨_, rfl, Or.inl (hConverges.diff_materialize draft id hSound)⟩
  | updated hDiff => exact ⟨_, rfl, Or.inl (hConverges.diff_apply hSound hDiff)⟩
  | upToDate hDiff => exact ⟨_, rfl, Or.inl hDiff⟩
  | @overlooked old current hOld hMoved =>
      obtain ⟨found, count, hFound, hDescends⟩ := hTracked.moved _ old (hSeen ▸ hOld)
      obtain rfl : current = found := Option.some.inj (hCurrent.symm.trans hFound)
      have hAfter := hDescends.updated fun hZero => hMoved (hDescends.same hZero)
      refine ⟨current, rfl, Or.inr ⟨rfl, hAfter.mono (fun _ hOther => hOther) ?_⟩⟩
      intro event hEvent
      rw [hJournal]
      exact List.mem_append_left _ hEvent

/-- Processing a draft moves its resource by one version at most, and no other. -/
theorem Tracked.process (hTracked : Tracked start done desk) (hDone : done.length < 2 ^ 64)
    (hKey : F.hasKey draft = true) (hSeen : seen = start.get? (F.keyOf draft)) :
    Tracked start (done ++ [draft]) (desk.process options draft seen).2 := by
  have hDeals := hTracked.sync_deals hHookless hAdvances (hConverges.key_materialize draft) hOwn
    hDone hKey hSeen
  obtain ⟨added, hJournal, -⟩ :=
    (@sync_moves F σ options draft desk hHookless.quiet.sparesRemote seen).interim
  have hGrows : ∀ event ∈ desk.journal, event ∈ (desk.process options draft seen).2.journal := by
    intro event hEvent
    refine List.mem_append_left _ ?_
    rw [hJournal]
    exact List.mem_append_left _ hEvent
  refine ⟨hDeals.orderly, fun key old hOld => ?_⟩
  obtain ⟨current, count, hStored, hDescends⟩ := hTracked.moved key old hOld
  have hKept : Descends (done ++ [draft]) (desk.process options draft seen).2.journal key old
      current count := hDescends.mono hGrows
  by_cases hOther : key = F.keyOf draft
  · subst hOther
    have hEnds := hDeals.ends
    rw [hStored] at hEnds
    generalize hLeft : (desk.sync options draft seen).2.world.remote.resources.get?
      (F.keyOf draft) = left at hEnds
    generalize hPhase : (desk.sync options draft seen).1 = phase at hEnds
    cases hEnds with
    | failed => exact ⟨current, count, hLeft, hKept⟩
    | upToDate => exact ⟨current, count, hLeft, hKept⟩
    | overlooked => exact ⟨current, count, hLeft, hKept⟩
    | @updated _ actions hDiff =>
        have hEnded : Event.ended draft .updated (desk.sync options draft seen).2.world.remote ∈
            (desk.process options draft seen).2.journal := by
          rw [← hPhase]
          exact List.mem_append_right _ (List.mem_singleton_self _)
        exact ⟨F.apply current actions, count + 1, hLeft,
          hDescends.update hAdvances actions hEnded⟩
  · exact ⟨current, count, (hDeals.others key hOther).trans hStored, hKept⟩

/-- The drafts of a batch that end in success are confirmed one by one. -/
theorem Tracked.processAll {found : KeyMap F.Resource} {rest : List F.Draft}
    {Good : List (Event F) → F.Draft → Phase → Remote F → Prop}
    (hTracked : Tracked start done desk) (hLength : (done ++ rest).length ≤ 2 ^ 64)
    (hKey : ∀ draft ∈ rest, F.hasKey draft = true) (hSound : ∀ draft ∈ rest, Sound draft)
    (hFound : ∀ draft ∈ rest, (F.draftKey draft).bind found.get? = start.get? (F.keyOf draft))
    (hVouched : Vouched Good desk.journal)
    (hGood : ∀ earlier draft later journal phase remote, done ++ rest = earlier ++ draft :: later →
      (phase.isSuccess = true → Confirmed earlier journal draft phase remote) →
        Good journal draft phase remote) :
    (Desk.processAll options found desk rest).2.world.remote.Orderly ∧
      Vouched Good (Desk.processAll options found desk rest).2.journal := by
  induction rest generalizing done desk with
  | nil => exact ⟨hTracked.orderly, hVouched⟩
  | cons draft rest ih =>
      have hDone : done.length < 2 ^ 64 := by
        rw [List.length_append, List.length_cons] at hLength
        omega
      have hDraftKey := hKey draft (List.mem_cons_self ..)
      have hSeen := hFound draft (List.mem_cons_self ..)
      have hConfirmed := hTracked.confirmed hHookless hAdvances hConverges hOwn hDone hDraftKey
        (hSound draft (List.mem_cons_self ..)) hSeen
      have hNext := hTracked.process hHookless hAdvances hConverges hOwn hDone hDraftKey hSeen
      have hSame : done ++ [draft] ++ rest = done ++ draft :: rest := by simp
      have hSynced := hVouched.interim
        (@sync_moves F σ options draft desk hHookless.quiet.sparesRemote
          ((F.draftKey draft).bind found.get?)).interim
      refine ih hNext (hSame ▸ hLength)
        (fun other hOther => hKey other (List.mem_cons_of_mem _ hOther))
        (fun other hOther => hSound other (List.mem_cons_of_mem _ hOther))
        (fun other hOther => hFound other (List.mem_cons_of_mem _ hOther)) ?_ (hSame ▸ hGood)
      exact hSynced.ended (hGood done draft rest _ _ _ rfl hConfirmed)

end

/-- A batch is looked up once, and its drafts that end in success are confirmed one by one. -/
theorem syncBatch_vouched {drafts : List F.Draft}
    {Good : List (Event F) → F.Draft → Phase → Remote F → Prop} (hHookless : options.Hookless)
    (hAdvances : F.Advances) (hConverges : F.Converges Sound)
    (hOrderly : desk.world.remote.Orderly) (hLength : drafts.length ≤ 2 ^ 64)
    (hKey : ∀ draft ∈ drafts, F.hasKey draft = true) (hSound : ∀ draft ∈ drafts, Sound draft)
    (hVouched : Vouched Good desk.journal)
    (hGood : ∀ earlier draft later journal phase remote, drafts = earlier ++ draft :: later →
      (phase.isSuccess = true → Confirmed earlier journal draft phase remote) →
        Good journal draft phase remote) :
    (desk.syncBatch options drafts).2.world.remote.Orderly ∧
      Vouched Good (desk.syncBatch options drafts).2.journal := by
  unfold syncBatch
  split
  · exact ⟨hOrderly, hVouched⟩
  · have hAnswer : (desk.lookup (F.keysOf drafts)).1 =
        .ok (desk.world.remote.resources.select (F.keysOf drafts)) := by
      show desk.world.remote.lookupAnswer (F.keysOf drafts) = _
      rw [Remote.lookupAnswer, hOrderly.lookups]
    have hLooked : (desk.lookup (F.keysOf drafts)).2.world.remote.Orderly :=
      hOrderly.lookup (F.keysOf drafts)
    have hFiled : ∀ draft ∈ drafts, Filed draft desk := fun draft hDraft =>
      ⟨hKey draft hDraft, fun old hOld => hOrderly.own hOld⟩
    simp only [hAnswer]
    exact Tracked.processAll hHookless hAdvances hConverges (fun key old => hOrderly.own)
      (Tracked.start hLooked) hLength hKey hSound (fun draft hDraft => found_of_filed hFiled hDraft)
      hVouched hGood

end Desk

/-! ## Calls -/

/-- What passes the screening of a batch stands in the batch behind what passes before it. -/
theorem Family.split_screened {batch : List (Option F.Draft)} {earlier later : List F.Draft}
    {draft : F.Draft}
    (hSplit : batch.filterMap (Option.filter F.hasKey) = earlier ++ draft :: later) :
    ∃ front back, batch = front ++ some draft :: back ∧ ∀ other ∈ earlier, some other ∈ front := by
  obtain ⟨front, rest, rfl, hFront, hRest⟩ := List.filterMap_eq_append_iff.mp hSplit
  obtain ⟨dropped, entry, back, rfl, -, hEntry, -⟩ := List.filterMap_eq_cons_iff.mp hRest
  obtain ⟨rfl, -⟩ := Option.filter_eq_some_iff.mp hEntry
  refine ⟨front ++ dropped, back, by simp, fun other hOther => List.mem_append_left _ ?_⟩
  rw [← hFront] at hOther
  obtain ⟨entry, hMem, hSome⟩ := List.mem_filterMap.mp hOther
  obtain ⟨rfl, -⟩ := Option.filter_eq_some_iff.mp hSome
  exact hMem

namespace Engine

variable {engine : Engine F σ} {run : Run F σ} {Sound : F.Draft → Prop}

/-- The drafts of all batches that end in success are confirmed one by one. -/
theorem syncBatches_vouched {batches : List (List (Option F.Draft))}
    {Good : List (Event F) → F.Draft → Phase → Remote F → Prop}
    (hAdvances : F.Advances) (hConverges : F.Converges Sound) (hPlain : engine.resolver = none)
    (hHookless : engine.options.Hookless) (hOrderly : run.desk.world.remote.Orderly)
    (hVouched : Vouched Good run.desk.journal)
    (hLength : ∀ batch ∈ batches, batch.length ≤ 2 ^ 64)
    (hSound : ∀ batch ∈ batches, ∀ draft, some draft ∈ batch → Sound draft)
    (hGood : ∀ batch ∈ batches, ∀ earlier draft later journal phase remote,
      batch.filterMap (Option.filter F.hasKey) = earlier ++ draft :: later →
        (phase.isSuccess = true → Desk.Confirmed earlier journal draft phase remote) →
          Good journal draft phase remote) :
    Vouched Good (batches.foldl engine.syncBatch run).desk.journal := by
  induction batches generalizing run with
  | nil => exact hVouched
  | cons batch rest ih =>
      have hScreened := @Desk.screen_drafts F σ engine.options run.desk batch
      have hWorld := @Desk.screen_world F σ engine.options run.desk batch
      have hInterim : Appends Event.isInterim run.desk.journal
          (Desk.screen engine.options run.desk batch).2.journal :=
        Desk.screen_idle.journal.mono fun _ hIdle =>
          Event.isInterim_of_isNotice (Event.isNotice_of_isIdle hIdle)
      have hValid : ∀ draft ∈ (Desk.screen engine.options run.desk batch).1,
          some draft ∈ batch ∧ F.hasKey draft = true := fun draft => Desk.valid_of_mem_screen
      have hShort : (Desk.screen engine.options run.desk batch).1.length ≤ 2 ^ 64 := by
        rw [hScreened]
        exact Nat.le_trans (List.length_filterMap_le ..) (hLength batch (List.mem_cons_self ..))
      have hBegun : (Desk.screen engine.options run.desk batch).2.world.remote.Orderly := by
        rw [hWorld]
        exact hOrderly
      obtain ⟨hNext, hNextVouched⟩ := Desk.syncBatch_vouched hHookless hAdvances hConverges hBegun
        hShort (fun draft hDraft => (hValid draft hDraft).2)
        (fun draft hDraft => hSound batch (List.mem_cons_self ..) draft (hValid draft hDraft).1)
        (hVouched.interim hInterim) (hScreened ▸ hGood batch (List.mem_cons_self ..))
      rw [List.foldl_cons]
      refine ih ?_ ?_ (fun other hOther => hLength other (List.mem_cons_of_mem _ hOther))
        (fun other hOther => hSound other (List.mem_cons_of_mem _ hOther))
        fun other hOther => hGood other (List.mem_cons_of_mem _ hOther)
      · simp only [syncBatch, hPlain]
        exact hNext
      · simp only [syncBatch, hPlain]
        exact hNextVouched

/--
At the moment a draft ends in success, a resource is stored under its key. The difference of that
resource to the draft is empty, except for a draft found up to date behind another one of its batch
that has its key and was updated: it was compared with the resource as looked up before that update.
Batches have to be smaller than the number of versions, or a version could come around in one.
-/
theorem success_matches (hFamily : F.OfCatalog Sound) (hPlain : engine.resolver = none)
    (hHookless : engine.options.Hookless) (hSize : engine.options.batchSize < 2 ^ 64)
    {world : World F σ} (hOrderly : world.remote.Orderly) {drafts : List (Option F.Draft)}
    (hSound : ∀ draft, some draft ∈ drafts → Sound draft) :
    ∀ front draft phase remote back,
      (engine.sync (Run.start world) drafts).desk.journal =
          front ++ .ended draft phase remote :: back →
        phase.isSuccess = true →
          ∃ resource, remote.resources.get? (F.keyOf draft) = some resource ∧
            (F.diff resource draft = .ok [] ∨
              phase = .upToDate ∧ ∃ batch ∈ engine.options.batches drafts, ∃ earlier later other,
                batch = earlier ++ some draft :: later ∧ some other ∈ earlier ∧
                  F.keyOf other = F.keyOf draft ∧
                    ∃ before, Event.ended other .updated before ∈ front) := by
  have hBatch : ∀ batch ∈ engine.options.batches drafts, ∀ draft, some draft ∈ batch →
      some draft ∈ drafts := by
    intro batch hMem draft hDraft
    rw [← @Options.flatten_batches F σ _ engine.options drafts]
    exact List.mem_flatten.mpr ⟨batch, hMem, hDraft⟩
  refine syncBatches_vouched hFamily.advances hFamily.converges hPlain hHookless hOrderly .nil
    (fun batch hMem => ?_)
    (fun batch hMem draft hDraft => hSound draft (hBatch batch hMem draft hDraft))
    (fun batch hMem => ?_)
  · exact Nat.le_of_lt (Nat.lt_of_le_of_lt (Options.length_le_of_mem_batches hMem) hSize)
  · intro earlier draft later journal phase remote hSplit hConfirmed hSuccess
    obtain ⟨resource, hStored, hMatches | ⟨hPhase, other, hOther, hKey, hUpdated⟩⟩ :=
      hConfirmed hSuccess
    · exact ⟨resource, hStored, Or.inl hMatches⟩
    · obtain ⟨front, back, hWhole, hFront⟩ := Family.split_screened hSplit
      exact ⟨resource, hStored, Or.inr ⟨hPhase, batch, hMem, front, back, other, hWhole,
        hFront other hOther, hKey, hUpdated⟩⟩

/-- A stock of one category, to be told by its identifier from every new one. -/
def shoeStock : Remote Family.category :=
  ({ ids := fun n => String.ofList (List.replicate n 'x') } : Remote Family.category).insert
    ⟨"1", "shoes", 1, .of "en" "Shoes", .of "en" "shoes", none, none, none, none⟩

theorem shoeStock_orderly : shoeStock.Orderly := by
  refine .of_tidy ⟨rfl, rfl, rfl, rfl⟩ (.put (.of_ids fun left right hSame => ?_) rfl rfl
    (Nat.le_refl 0) (fun hGet => by cases hGet) fun n _ hSame => ?_)
  · have hLength := congrArg (fun text => text.toList.length) hSame
    simpa using hLength
  · have hMem : '1' ∈ List.replicate n 'x' := by
      have hList := congrArg String.toList hSame
      simp at hList
      rw [← hList]
      decide
    exact absurd (List.eq_of_mem_replicate hMem) (by decide)

theorem success_matches_shoes :
    let boots : Category.Draft := .basic "shoes" (.of "en" "Boots") (.of "en" "shoes")
    let engine : Engine Family.category Unit := {}
    let run := engine.sync (Run.start { remote := shoeStock, notes := () }) [some boots]
    ∃ front remote back, run.desk.journal = front ++ .ended boots .updated remote :: back ∧
      ∃ resource, remote.resources.get? "shoes" = some resource ∧
        Family.category.diff resource boots = .ok [] := by
  intro boots engine run
  have hEnds : (run.desk.journal.any fun event => match event with
      | .ended draft .updated _ => draft == boots
      | _ => false) = true := by decide +kernel
  obtain ⟨event, hMem, hEvent⟩ := List.any_eq_true.mp hEnds
  split at hEvent
  · rename_i draft remote
    obtain rfl : draft = boots := eq_of_beq hEvent
    obtain ⟨front, back, hJournal⟩ := List.append_of_mem hMem
    refine ⟨front, remote, back, hJournal, ?_⟩
    obtain ⟨resource, hStored, hMatches | ⟨hUpToDate, -⟩⟩ :=
      @success_matches Family.category Unit engine _ .category rfl ⟨rfl, rfl⟩ (by decide) _
        shoeStock_orderly _ (fun _ _ => trivial) front boots .updated remote back hJournal rfl
    · exact ⟨resource, hStored, hMatches⟩
    · cases hUpToDate
  · cases hEvent

/-- The exception is real: a draft ends up to date that the resource of its key does not match. -/
theorem success_misses :
    ¬ ∀ (engine : Engine Family.category Unit) (world : World Family.category Unit)
        (drafts : List (Option Category.Draft)), engine.resolver = none →
        engine.options.Hookless → engine.options.batchSize < 2 ^ 64 → world.remote.Orderly →
          ∀ front draft phase remote back,
            (engine.sync (Run.start world) drafts).desk.journal =
                front ++ .ended draft phase remote :: back →
              phase.isSuccess = true →
                ∃ resource, remote.resources.get? (Family.category.keyOf draft) = some resource ∧
                  Family.category.diff resource draft = .ok [] := by
  intro hClaim
  let boots : Category.Draft := .basic "shoes" (.of "en" "Boots") (.of "en" "shoes")
  let shoes : Category.Draft := .basic "shoes" (.of "en" "Shoes") (.of "en" "shoes")
  let engine : Engine Family.category Unit := {}
  let world : World Family.category Unit := { remote := shoeStock, notes := () }
  have hHollow : (engine.sync (Run.start world) [some boots, some shoes]).desk.journal.any
      Event.isHollow = true := by decide +kernel
  obtain ⟨event, hMem, hEvent⟩ := List.any_eq_true.mp hHollow
  obtain ⟨draft, phase, remote, rfl, hSuccess, hMissed⟩ := Event.of_isHollow hEvent
  obtain ⟨front, back, hJournal⟩ := List.append_of_mem hMem
  exact hMissed (hClaim engine world _ rfl ⟨rfl, rfl⟩ (by decide) shoeStock_orderly front draft
    phase remote back hJournal hSuccess)

end Engine

end CatalogSync
