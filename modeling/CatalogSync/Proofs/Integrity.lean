import CatalogSync.Proofs.Wakeup

/-!
# Categories keep their parents

An engine that waits for references never lets a category reach the remote before its parent. A
draft is submitted only while it is fit, which for a category says that the parent exists; no call
takes a key away; and an update leaves a category with the parent that it had or with that of the
draft. So in every state that the remote goes through the parent of every category exists.

The states in between are read off the log: they are what the calls so far have written into the
contents at the beginning.

## Main results

* `Category.parent_of_follows`: the parent after an update is an old one or that of the draft.
* `Desk.Integral`: the history of a remote whose categories keep their parents.
* `Engine.parents_stored`: every course of an engine has such a history.
-/

namespace CatalogSync

variable {σ : Type}

/-! ## Parents -/

namespace Category

/-- The parent of a draft exists. -/
def Draft.ParentStored (draft : Draft) (categories : KeyMap Category) : Prop :=
  ∀ parent, draft.parent = some parent → parent ∈ categories.keys

/-- The parent of every category exists. -/
def ParentsStored (categories : KeyMap Category) : Prop :=
  ∀ key category parent, categories.get? key = some category → category.parent = some parent →
    parent ∈ categories.keys

/-- Whether an action moves a category somewhere else than a draft says. -/
def Action.Follows (draft : Draft) : Action → Prop
  | .changeParent parent => draft.parent = some parent
  | _ => True

/-- Among the actions for a draft, only a move to its own parent changes the parent. -/
theorem follows_of_mem_diff {old : Category} {draft : Draft} {action : Action}
    (hMem : action ∈ diff old draft) : action.Follows draft := by
  cases action with
  | changeParent parent =>
      simp only [diff, List.mem_append, Option.mem_toList] at hMem
      rcases hMem with ((((h | h) | h) | h) | h) | h
      · cases Field.eq_of_change h
      · cases Field.eq_of_change h
      · rcases Field.eq_of_setOrClear h with ⟨_, _, hAction⟩ | ⟨_, hAction⟩ <;> cases hAction
      · obtain ⟨value, hParent, hAction⟩ := Field.eq_of_setIfGiven h
        cases hAction
        exact hParent
      · obtain ⟨_, _, hAction⟩ := Field.eq_of_setIfGiven h
        cases hAction
      · rcases Field.eq_of_setOrClear h with ⟨_, _, hAction⟩ | ⟨_, hAction⟩ <;> cases hAction
  | _ => trivial

/-- Actions that follow a draft leave the parent that was there, or set that of the draft. -/
theorem parent_of_follows {category : Category} {draft : Draft} {actions : List Action}
    {parent : String} (hFollow : ∀ action ∈ actions, action.Follows draft)
    (hParent : (actions.foldl perform category).parent = some parent) :
    category.parent = some parent ∨ draft.parent = some parent := by
  induction actions generalizing category with
  | nil => exact Or.inl hParent
  | cons action rest ih =>
      have hRest := ih (fun other hOther => hFollow other (List.mem_cons_of_mem _ hOther)) hParent
      refine hRest.elim (fun hFirst => ?_) Or.inr
      have hAction := hFollow action (List.mem_cons_self ..)
      cases action with
      | changeParent moved =>
          refine Or.inr (Eq.trans hAction ?_)
          exact hFirst
      | _ => exact Or.inl hFirst

/-- A created category has the parent of its draft. -/
theorem parentsStored_create {remote : Remote Family.category} {draft : Draft}
    (hDraft : draft.ParentStored remote.resources) (hStored : ParentsStored remote.resources) :
    ParentsStored ((remote.creation draft).write remote.resources) := by
  unfold Remote.creation
  cases hAnswer : remote.createAnswer draft with
  | error fault => exact hStored
  | ok answer =>
      cases answer with
      | none => exact hStored
      | some created =>
          obtain ⟨-, id, -, -, hCreated⟩ := Remote.fresh_of_createAnswer hAnswer
          intro key category parent hGet hParent
          show parent ∈ (KeyMap.insert _ _ _).keys
          rw [KeyMap.keys_insert, KeySet.mem_insert]
          refine Or.inr ?_
          rw [Call.write, KeyMap.get?_insert] at hGet
          split at hGet
          · cases hGet
            rw [hCreated] at hParent
            exact hDraft parent hParent
          · exact hStored key category parent hGet hParent

/-- An updated category has the parent that it had, or that of the draft. -/
theorem parentsStored_update {remote : Remote Family.category} {draft : Draft} {old : Category}
    {actions : List Action} (hFollow : ∀ action ∈ actions, action.Follows draft)
    (hDraft : draft.ParentStored remote.resources) (hStored : ParentsStored remote.resources) :
    ParentsStored ((remote.change old actions).write remote.resources) := by
  unfold Remote.change
  cases hAnswer : remote.updateAnswer old actions with
  | error fault => exact hStored
  | ok updated =>
      obtain ⟨current, hCurrent, -, hUpdated⟩ := Remote.stored_of_updateAnswer hAnswer
      intro key category parent hGet hParent
      show parent ∈ (KeyMap.insert _ _ _).keys
      rw [KeyMap.keys_insert, KeySet.mem_insert]
      refine Or.inr ?_
      rw [Call.write, KeyMap.get?_insert] at hGet
      split at hGet
      · cases hGet
        rw [hUpdated] at hParent
        rcases parent_of_follows hFollow hParent with hOld | hNew
        · exact hStored _ current parent hCurrent hOld
        · exact hDraft parent hNew
      · exact hStored key category parent hGet hParent

end Category

/-! ## Histories -/

namespace Desk

variable {start before after : Desk Family.category σ} {calls : List (Call Family.category)}

/-- The calls that a desk has made since its start are in the log, and they account for its contents.
After any number of them the parents of all categories exist; each of them that writes was entered
into the journal with the remote as it was; and no draft was entered before its parent existed. -/
structure Integral (start after : Desk Family.category σ)
    (calls : List (Call Family.category)) : Prop where
  log : after.world.remote.log = start.world.remote.log ++ calls
  contents : after.world.remote.resources = contentsAfter start.world.remote.resources calls
  stored : ∀ count,
    Category.ParentsStored (contentsAfter start.world.remote.resources (calls.take count))
  submitted : ∀ count call, calls[count]? = some call → call.isQuery = false →
    ∃ draft remote, Event.submitting draft remote ∈ after.journal ∧ call.serves draft ∧
      remote.log = start.world.remote.log ++ calls.take count ∧
      remote.resources = contentsAfter start.world.remote.resources (calls.take count)
  fit : ∀ draft remote, Event.submitting draft remote ∈ after.journal →
    Event.submitting draft remote ∈ start.journal ∨
      Category.Draft.ParentStored draft remote.resources

theorem Integral.refl (hStored : Category.ParentsStored start.world.remote.resources) :
    Integral start start [] where
  log := (List.append_nil _).symm
  contents := rfl
  stored count := by
    rw [List.take_nil]
    exact hStored
  submitted count call hCall := by cases hCall
  fit draft remote hEvent := Or.inl hEvent

/-- What was submitted for the calls so far is found after later ones. -/
theorem Integral.submitted_append {more : List (Call Family.category)}
    (hIntegral : Integral start before calls)
    (hJournal : ∀ event ∈ before.journal, event ∈ after.journal) {count : Nat}
    {call : Call Family.category} (hCount : count < calls.length)
    (hCall : (calls ++ more)[count]? = some call) (hWrites : call.isQuery = false) :
    ∃ draft remote, Event.submitting draft remote ∈ after.journal ∧ call.serves draft ∧
      remote.log = start.world.remote.log ++ (calls ++ more).take count ∧
      remote.resources =
        contentsAfter start.world.remote.resources ((calls ++ more).take count) := by
  rw [List.getElem?_append_left hCount] at hCall
  rw [List.take_append_of_le_length (Nat.le_of_lt hCount)]
  obtain ⟨draft, remote, hEvent, hRest⟩ := hIntegral.submitted count call hCall hWrites
  exact ⟨draft, remote, hJournal _ hEvent, hRest⟩

/-- Steps that submit nothing add queries only. -/
theorem Integral.extend (hIntegral : Integral start before calls)
    (hResources : after.world.remote.resources = before.world.remote.resources)
    (hQueried : Appends Call.isQuery before.world.remote.log after.world.remote.log)
    (hKept : ∀ event ∈ before.journal, event ∈ after.journal)
    (hNone : ∀ draft remote, Event.submitting draft remote ∈ after.journal →
      Event.submitting draft remote ∈ before.journal) : ∃ more, Integral start after more := by
  obtain ⟨queries, hLog, hQueries⟩ := hQueried
  refine ⟨calls ++ queries, ?_, ?_, fun count => ?_, fun count call hCall hWrites => ?_,
    fun draft remote hEvent => hIntegral.fit draft remote (hNone draft remote hEvent)⟩
  · rw [hLog, hIntegral.log, List.append_assoc]
  · rw [hResources, hIntegral.contents, contentsAfter_append_queries hQueries]
  · rw [List.take_append, contentsAfter_append_queries]
    · exact hIntegral.stored count
    · exact fun call hCall => hQueries call (List.mem_of_mem_take hCall)
  · have hCount : count < calls.length := by
      refine Nat.lt_of_not_le fun hLate => ?_
      rw [List.getElem?_append_right hLate] at hCall
      rw [hQueries call (List.mem_of_getElem? hCall)] at hWrites
      cases hWrites
    exact hIntegral.submitted_append hKept hCount hCall hWrites

/-- Notices submit nothing. -/
theorem Integral.noted (hIntegral : Integral start before calls)
    (hResources : after.world.remote.resources = before.world.remote.resources)
    (hQueried : Appends Call.isQuery before.world.remote.log after.world.remote.log)
    (hNoted : Appends Event.isNotice before.journal after.journal) :
    ∃ more, Integral start after more := by
  obtain ⟨notices, hJournal, hNotices⟩ := hNoted
  refine hIntegral.extend hResources hQueried (fun event hEvent => ?_) fun draft remote hEvent => ?_
  · rw [hJournal]
    exact List.mem_append_left _ hEvent
  · rw [hJournal, List.mem_append] at hEvent
    exact hEvent.resolve_right fun hNotice => by cases hNotices _ hNotice

theorem Integral.idle (hIntegral : Integral start before calls) (hIdle : Idle before after) :
    ∃ more, Integral start after more :=
  hIntegral.noted hIdle.resources hIdle.log (hIdle.journal.mono fun _ => Event.isNotice_of_isIdle)

/-- Entering how a draft ended submits nothing. -/
theorem Integral.close {draft : Category.Draft} {phase : Phase}
    (hIntegral : Integral start before calls) :
    ∃ more, Integral start (before.close (F := Family.category) draft phase) more := by
  refine hIntegral.extend rfl .refl (fun event hEvent => List.mem_append_left _ hEvent)
    fun other remote hEvent => ?_
  rcases List.mem_append.mp hEvent with hEvent | hEvent
  · exact hEvent
  · cases List.mem_singleton.mp hEvent

/-- A call for a draft whose parent exists is added, if the parents exist after it. -/
theorem Integral.call {draft : Category.Draft} {call : Call Family.category}
    (hIntegral : Integral start before calls)
    (hLog : after.world.remote.log = before.world.remote.log ++ [call])
    (hContents : after.world.remote.resources = call.write before.world.remote.resources)
    (hJournal : after.journal =
      before.journal ++ [Event.submitting (F := Family.category) draft before.world.remote])
    (hServes : call.serves (F := Family.category) draft)
    (hDraft : draft.ParentStored before.world.remote.resources)
    (hStored : Category.ParentsStored (call.write before.world.remote.resources)) :
    Integral start after (calls ++ [call]) := by
  have hWritten : contentsAfter start.world.remote.resources (calls ++ [call]) =
      call.write before.world.remote.resources := by
    rw [contentsAfter_append, ← hIntegral.contents]
    rfl
  refine ⟨?_, hContents.trans hWritten.symm, fun count => ?_, fun count other hCall hWrites => ?_,
    fun other remote hEvent => ?_⟩
  · rw [hLog, hIntegral.log, List.append_assoc]
  · by_cases hCount : count ≤ calls.length
    · rw [List.take_append_of_le_length hCount]
      exact hIntegral.stored count
    · have hAll : (calls ++ [call]).length ≤ count := by
        rw [List.length_append, List.length_singleton]
        omega
      rw [List.take_of_length_le hAll, hWritten]
      exact hStored
  · by_cases hCount : count < calls.length
    · refine hIntegral.submitted_append (fun event hEvent => ?_) hCount hCall hWrites
      rw [hJournal]
      exact List.mem_append_left _ hEvent
    · have hLast : count = calls.length := by
        have hBound := (List.getElem?_eq_some_iff.mp hCall).1
        rw [List.length_append, List.length_singleton] at hBound
        omega
      subst hLast
      rw [List.getElem?_concat_length, Option.some.injEq] at hCall
      subst hCall
      refine ⟨draft, before.world.remote, ?_, hServes, ?_, ?_⟩
      · rw [hJournal]
        exact List.mem_append_right _ (List.mem_singleton_self _)
      · rw [List.take_left, hIntegral.log]
      · rw [List.take_left, hIntegral.contents]
  · rw [hJournal, List.mem_append, List.mem_singleton] at hEvent
    rcases hEvent with hEvent | hEvent
    · exact hIntegral.fit other remote hEvent
    · cases hEvent
      exact Or.inr hDraft

/-! ## Steps and courses -/

variable {options : Options Family.category σ} {known : Category.Draft → Prop}

/-- A category is fit only if its parent exists. -/
theorem Fit.parentStored {draft : Category.Draft} {desk : Desk Family.category σ}
    (hFit : Fit (F := Family.category) known draft desk) :
    draft.ParentStored desk.world.remote.resources := by
  intro parent hParent
  refine hFit.stored parent ?_
  show parent ∈ KeySet.ofList draft.parent.toList
  rw [KeySet.mem_ofList, hParent]
  exact List.mem_singleton_self parent

/-- Every single step while a fit draft is processed adds to the history. -/
theorem Move.integral {draft : Category.Draft} (hHookless : options.Hookless)
    (hMove : Move (F := Family.category) options draft before after)
    (hFit : Fit (F := Family.category) known draft before)
    (hIntegral : Integral start before calls) : ∃ more, Integral start after more := by
  have hDraft := hFit.parentStored
  have hStored : Category.ParentsStored before.world.remote.resources := by
    have hAll := hIntegral.stored calls.length
    rw [List.take_length, ← hIntegral.contents] at hAll
    exact hAll
  cases hMove with
  | note event hNotice => exact hIntegral.noted rfl .refl (.single hNotice)
  | remember world hRemote _ => exact hIntegral.idle (.of_remote hRemote .refl)
  | fetch old => exact hIntegral.idle ⟨rfl, .single rfl, .refl⟩
  | create asked kept hKept =>
      rw [askBeforeCreate_of_hookless hHookless] at hKept
      cases hKept
      exact ⟨_, hIntegral.call rfl Remote.create_write rfl rfl hDraft
        (Category.parentsStored_create hDraft hStored)⟩
  | update asked old proposed actions hDiff hActions =>
      rw [askBeforeUpdate_of_hookless hHookless] at hActions
      subst hActions
      have hFollow : ∀ action ∈ proposed, Category.Action.Follows draft action := by
        intro action hAction
        cases hDiff
        exact Category.follows_of_mem_diff hAction
      exact ⟨_, hIntegral.call rfl Remote.update_write rfl hDiff hDraft
        (Category.parentsStored_update hFollow hDraft hStored)⟩

/-- Everything an engine does adds to the history. -/
theorem Work.integral (hHookless : options.Hookless)
    (hWork : Work (F := Family.category) options known before after)
    (hIntegral : Integral start before calls) : ∃ more, Integral start after more := by
  cases hWork with
  | idle hIdle => exact hIntegral.idle hIdle
  | process draft old hFit =>
      have hMoves : Moves (F := Family.category) options draft before
          (before.sync options draft old).2 := sync_moves hHookless.quiet.sparesRemote
      have hSynced : Fit (F := Family.category) known draft (before.sync options draft old).2 ∧
          ∃ more, Integral start (before.sync options draft old).2 more := by
        refine keeps_of_reflTransGen (P := fun desk => Fit (F := Family.category) known draft desk ∧
          ∃ more, Integral start desk more) hMoves ?_ ⟨hFit, calls, hIntegral⟩
        rintro earlier later hMove ⟨hFit, calls, hIntegral⟩
        exact ⟨hFit.mono fun _ => hMove.keys, hMove.integral hHookless hFit hIntegral⟩
      obtain ⟨-, more, hMore⟩ := hSynced
      exact hMore.close

end Desk

/--
Categories keep their parents, whatever drafts are handed in and whatever goes wrong. A draft is
submitted only when its parent exists. After any number of the calls that the remote has answered
the parents of all categories exist, and each call that writes is one that a draft asked for, made
at a moment at which the parent of the draft existed.
-/
theorem Engine.parents_stored {engine : Engine Family.category σ}
    (hHookless : engine.options.Hookless) (hResolver : engine.resolver = some World.askRemote)
    {world : World Family.category σ} (hStart : Category.ParentsStored world.remote.resources)
    (errands : List (Errand Family.category)) :
    let desk := (engine.follow (Run.start world) errands).desk
    (∀ draft remote, Event.submitting draft remote ∈ desk.journal →
        Category.Draft.ParentStored draft remote.resources) ∧
      ∃ calls, desk.world.remote.log = world.remote.log ++ calls ∧
        desk.world.remote.resources = contentsAfter world.remote.resources calls ∧
        (∀ count, Category.ParentsStored
          (contentsAfter world.remote.resources (calls.take count))) ∧
        ∀ count call, calls[count]? = some call → call.isQuery = false →
          ∃ draft remote, Event.submitting draft remote ∈ desk.journal ∧ call.serves draft ∧
            remote.log = world.remote.log ++ calls.take count ∧
            remote.resources = contentsAfter world.remote.resources (calls.take count) ∧
            Category.Draft.ParentStored draft remote.resources := by
  intro desk
  obtain ⟨-, hWorks⟩ := @follow_wakeful _ σ engine (fun _ => True) _ errands hHookless.quiet
    hHookless.keepsKeys hResolver (fun _ _ _ => trivial) (start_wakeful engine world)
  obtain ⟨calls, hIntegral⟩ : ∃ calls, Desk.Integral (Run.start world).desk desk calls := by
    refine keeps_of_reflTransGen (P := fun desk => ∃ calls, Desk.Integral (Run.start world).desk
      desk calls) hWorks ?_ ⟨[], .refl hStart⟩
    rintro earlier later hWork ⟨calls, hIntegral⟩
    exact hWork.integral hHookless hIntegral
  have hFit : ∀ draft remote, Event.submitting draft remote ∈ desk.journal →
      Category.Draft.ParentStored draft remote.resources := fun draft remote hEvent =>
    (hIntegral.fit draft remote hEvent).resolve_left List.not_mem_nil
  refine ⟨hFit, calls, hIntegral.log, hIntegral.contents, hIntegral.stored,
    fun count call hCall hWrites => ?_⟩
  obtain ⟨draft, remote, hEvent, hServes, hLog, hContents⟩ :=
    hIntegral.submitted count call hCall hWrites
  exact ⟨draft, remote, hEvent, hServes, hLog, hContents, hFit draft remote hEvent⟩

theorem Engine.parents_stored_child :
    let names : LocalizedText := ⟨KeyMap.empty⟩
    let desk := ((Engine.deferring (F := Family.category)).follow (Run.start (.bare toString))
      [ .sync [some ((Category.Draft.basic "child" names names).withParent "parent")]
      , .sync [some (Category.Draft.basic "parent" names names)] ]).desk
    "child" ∈ desk.world.remote.resources.keys ∧
      (∀ draft remote, Event.submitting draft remote ∈ desk.journal →
        Category.Draft.ParentStored draft remote.resources) := by
  intro names desk
  have hStart : Category.ParentsStored (KeyMap.empty : KeyMap Category) := by
    intro key category parent hGet
    cases hGet
  exact ⟨by decide +kernel, (Engine.parents_stored ⟨rfl, rfl⟩ rfl hStart _).1⟩

end CatalogSync
