import CatalogSync.Proofs.Handling
import CatalogSync.Sync.Engine
import Mathlib.Logic.Relation

/-!
# What processing a draft does to a desk

While a draft is processed, the desk moves in single steps: a notice is entered into the journal, a
hook changes what it remembers, or a call of the remote is made on behalf of the draft.
`sync_moves` says so once for creating and for updating with its second attempt; what every move
keeps is then kept by the whole.

What depends on how the draft ended is told apart from that: only a draft that ends as created adds
a key to the remote.

## Main results

* `Desk.sync_moves`: syncing a draft is a sequence of moves.
* `Desk.process_shelf`: a processed draft leaves the shelf alone.
* `Desk.process_keys`: the keys of the remote grow by the key of a created draft and by no other.
-/

namespace CatalogSync

/-- What every step of a relation keeps is kept by any number of steps. -/
theorem keeps_of_reflTransGen {α : Type} {step : α → α → Prop} {P : α → Prop} {before after : α}
    (hSteps : Relation.ReflTransGen step before after)
    (hStep : ∀ earlier later, step earlier later → P earlier → P later) (hBefore : P before) :
    P after := by
  induction hSteps with
  | refl => exact hBefore
  | tail _ hLast ih => exact hStep _ _ hLast ih

variable {F : Family} {σ : Type}

/-! ## Hooks that behave -/

namespace Options

/-- Hooks leave the remote alone; whatever else they reach they may change. -/
structure SparesRemote (options : Options F σ) : Prop where
  beforeCreate : ∀ hook, options.beforeCreate = some hook → ∀ world draft,
    (hook world draft).2.remote = world.remote
  beforeUpdate : ∀ hook, options.beforeUpdate = some hook → ∀ world draft old actions,
    (hook world draft old actions).2.remote = world.remote

/-- Hooks leave the remote and the shelf alone; what they remember they may change. -/
structure Quiet (options : Options F σ) : Prop where
  beforeCreate : ∀ hook, options.beforeCreate = some hook → ∀ world draft,
    (hook world draft).2.remote = world.remote ∧ (hook world draft).2.shelf = world.shelf
  beforeUpdate : ∀ hook, options.beforeUpdate = some hook → ∀ world draft old actions,
    (hook world draft old actions).2.remote = world.remote ∧
      (hook world draft old actions).2.shelf = world.shelf

/-- The hook before a creation keeps the key of every draft that it does not drop. -/
def KeepsKeys (options : Options F σ) : Prop :=
  ∀ hook, options.beforeCreate = some hook → ∀ world draft kept,
    (hook world draft).1 = some kept → F.draftKey kept = F.draftKey draft

/-- No hook is set. -/
structure Hookless (options : Options F σ) : Prop where
  beforeCreate : options.beforeCreate = none
  beforeUpdate : options.beforeUpdate = none

variable {options : Options F σ}

theorem Quiet.sparesRemote (hQuiet : options.Quiet) : options.SparesRemote where
  beforeCreate hook hHook world draft := (hQuiet.beforeCreate hook hHook world draft).1
  beforeUpdate hook hHook world draft old actions :=
    (hQuiet.beforeUpdate hook hHook world draft old actions).1

theorem Hookless.quiet (hHookless : options.Hookless) : options.Quiet where
  beforeCreate hook hHook := by simp [hHookless.beforeCreate] at hHook
  beforeUpdate hook hHook := by simp [hHookless.beforeUpdate] at hHook

theorem Hookless.keepsKeys (hHookless : options.Hookless) : options.KeepsKeys := by
  intro hook hHook
  simp [hHookless.beforeCreate] at hHook

end Options

/-- Whether an event neither submits nor ends a draft. -/
def Event.isNotice : Event F → Bool
  | .submitting .. | .ended .. => false
  | _ => true

theorem Event.isNotice_of_isReport {event : Event F} (hReport : event.isReport = true) :
    event.isNotice = true := by
  cases event with
  | failure | created | updated => rfl
  | _ => cases hReport

namespace Desk

variable {options : Options F σ} {draft : F.Draft} {desk : Desk F σ}

/-! ## Single steps -/

/-- One step of a desk while a draft is processed. The desk `asked` is the one at which a hook made up
its mind. Of what a hook remembers the shelf is a part, unless the hooks are quiet. -/
inductive Move (options : Options F σ) (draft : F.Draft) : Desk F σ → Desk F σ → Prop where
  | note (desk : Desk F σ) (event : Event F) (hNotice : event.isNotice = true) :
      Move options draft desk (desk.enter event)
  | remember (desk : Desk F σ) (world : World F σ) (hRemote : world.remote = desk.world.remote)
      (hShelf : options.Quiet → world.shelf = desk.world.shelf) :
      Move options draft desk (desk.withWorld world)
  | create (desk asked : Desk F σ) (kept : F.Draft)
      (hKept : (asked.askBeforeCreate options draft).1 = some kept) :
      Move options draft desk (desk.submitCreation draft kept).2
  | update (desk asked : Desk F σ) (old : F.Resource) (proposed actions : List F.Action)
      (hDiff : F.diff old draft = .ok proposed)
      (hActions : (asked.askBeforeUpdate options draft old proposed).1 = actions) :
      Move options draft desk (desk.submitUpdate draft old actions).2
  | fetch (desk : Desk F σ) (old : F.Resource) : Move options draft desk (desk.refetch old).2

/-- Any number of steps of a desk while a draft is processed. -/
abbrev Moves (options : Options F σ) (draft : F.Draft) : Desk F σ → Desk F σ → Prop :=
  Relation.ReflTransGen (Move options draft)

theorem askBeforeCreate_moves (hSpares : options.SparesRemote) :
    Moves options draft desk (desk.askBeforeCreate options draft).2 := by
  unfold askBeforeCreate
  split
  · exact .refl
  · rename_i hook hHook
    exact .tail (.single (.note desk (.creating draft (hook desk.world draft).1) rfl))
      (.remember (desk.enter (.creating draft (hook desk.world draft).1)) _
        (hSpares.beforeCreate hook hHook desk.world draft)
        fun hQuiet => (hQuiet.beforeCreate hook hHook desk.world draft).2)

theorem askBeforeUpdate_moves (hSpares : options.SparesRemote) {old : F.Resource}
    {actions : List F.Action} :
    Moves options draft desk (desk.askBeforeUpdate options draft old actions).2 := by
  unfold askBeforeUpdate
  split
  · exact .refl
  · rename_i hook hHook
    exact .tail (.single (.note desk (.updating draft old actions) rfl))
      (.remember (desk.enter (.updating draft old actions)) _
        (hSpares.beforeUpdate hook hHook desk.world draft old actions)
        fun hQuiet => (hQuiet.beforeUpdate hook hHook desk.world draft old actions).2)

/-- Without a hook a draft is created as it is. -/
theorem askBeforeCreate_of_hookless (hHookless : options.Hookless) :
    desk.askBeforeCreate options draft = (some draft, desk) := by
  simp only [askBeforeCreate, hHookless.beforeCreate]

/-- Without a hook all actions for a draft are submitted. -/
theorem askBeforeUpdate_of_hookless (hHookless : options.Hookless) {old : F.Resource}
    {actions : List F.Action} :
    desk.askBeforeUpdate options draft old actions = (actions, desk) := by
  simp only [askBeforeUpdate, hHookless.beforeUpdate]

/-! ## Processing as a sequence of steps -/

/-- Whatever is done for a draft is one step more. -/
theorem moves_lasting (hSpares : options.SparesRemote) :
    Lasting options draft (Moves options draft desk) where
  report hReport hBefore := hBefore.tail (.note _ _ (Event.isNotice_of_isReport hReport))
  beforeCreate hBefore := hBefore.trans (askBeforeCreate_moves hSpares)
  beforeUpdate hBefore := hBefore.trans (askBeforeUpdate_moves hSpares)
  creation asked hKept hBefore := hBefore.tail (.create _ asked _ hKept)
  change asked hDiff hActions hBefore := hBefore.tail (.update _ asked _ _ _ hDiff hActions)
  fetch old hBefore := hBefore.tail (.fetch _ old)

theorem attemptUpdate_moves (hSpares : options.SparesRemote) {old : F.Resource} :
    Moves options draft desk (desk.attemptUpdate options draft old).2 :=
  (moves_lasting hSpares).attemptUpdate .refl

/-- Syncing a draft is a sequence of steps. -/
theorem sync_moves (hSpares : options.SparesRemote) {old : Option F.Resource} :
    Moves options draft desk (desk.sync options draft old).2 :=
  (moves_lasting hSpares).sync old .refl

/-! ## The shelf and the remote -/

theorem Moves.shelf {before after : Desk F σ} (hMoves : Moves options draft before after)
    (hQuiet : options.Quiet) : after.world.shelf = before.world.shelf := by
  refine keeps_of_reflTransGen (P := fun desk => desk.world.shelf = before.world.shelf)
    hMoves ?_ rfl
  intro earlier later hMove hBefore
  cases hMove with
  | remember _ _ hShelf => exact (hShelf hQuiet).trans hBefore
  | _ => exact hBefore

/-- No step takes an event out of the journal. -/
theorem Move.journal {before after : Desk F σ} (hMove : Move options draft before after)
    {event : Event F} (hEvent : event ∈ before.journal) : event ∈ after.journal := by
  cases hMove with
  | remember => exact hEvent
  | fetch => exact hEvent
  | _ => exact List.mem_append_left _ hEvent

/-- No step ends a draft. -/
theorem Move.of_ended {before after : Desk F σ} (hMove : Move options draft before after)
    {other : F.Draft} {phase : Phase} {remote : Remote F}
    (hEvent : Event.ended other phase remote ∈ after.journal) :
    Event.ended other phase remote ∈ before.journal := by
  cases hMove with
  | remember => exact hEvent
  | fetch => exact hEvent
  | note event hNotice =>
      rcases List.mem_append.mp hEvent with hOld | hNew
      · exact hOld
      · rw [← List.mem_singleton.mp hNew] at hNotice
        cases hNotice
  | _ =>
      rcases List.mem_append.mp hEvent with hOld | hNew
      · exact hOld
      · cases List.mem_singleton.mp hNew

/-- Any number of steps end no draft. -/
theorem Moves.of_ended {before after : Desk F σ} (hMoves : Moves options draft before after)
    {other : F.Draft} {phase : Phase} {remote : Remote F}
    (hEvent : Event.ended other phase remote ∈ after.journal) :
    Event.ended other phase remote ∈ before.journal :=
  keeps_of_reflTransGen (P := fun desk => Event.ended other phase remote ∈ desk.journal →
    Event.ended other phase remote ∈ before.journal) hMoves
    (fun _ _ hMove hBefore hAfter => hBefore (hMove.of_ended hAfter)) id hEvent

/-- No step takes a key of the remote away. -/
theorem Move.keys {before after : Desk F σ} (hMove : Move options draft before after) {key : String}
    (hKey : key ∈ before.world.remote.resources.keys) :
    key ∈ after.world.remote.resources.keys := by
  cases hMove with
  | remember world hRemote _ =>
      show key ∈ world.remote.resources.keys
      rw [hRemote]
      exact hKey
  | create asked kept _ =>
      show key ∈ (before.world.remote.create kept).2.resources.keys
      rw [Remote.create_keys]
      split
      · exact KeySet.mem_insert.mpr (Or.inr hKey)
      · exact hKey
  | update asked old proposed actions _ _ =>
      show key ∈ (before.world.remote.update old actions).2.resources.keys
      rw [Remote.update_keys]
      exact hKey
  | _ => exact hKey

/-- A processed draft leaves the shelf alone. -/
theorem process_shelf (hQuiet : options.Quiet) {old : Option F.Resource} :
    (desk.process options draft old).2.world.shelf = desk.world.shelf :=
  (sync_moves hQuiet.sparesRemote).shelf hQuiet

/-- A draft that ends while another is processed is that one. -/
theorem process_of_ended (hQuiet : options.Quiet) {other : F.Draft} {phase : Phase}
    {remote : Remote F} {old : Option F.Resource}
    (hEvent : Event.ended other phase remote ∈ (desk.process options draft old).2.journal) :
    Event.ended other phase remote ∈ desk.journal ∨ other = draft := by
  rcases List.mem_append.mp hEvent with hSynced | hClosed
  · exact Or.inl ((sync_moves hQuiet.sparesRemote).of_ended hSynced)
  · cases List.mem_singleton.mp hClosed
    exact Or.inr rfl

theorem askBeforeCreate_remote (hSpares : options.SparesRemote) (desk : Desk F σ)
    (draft : F.Draft) :
    (desk.askBeforeCreate options draft).2.world.remote = desk.world.remote := by
  unfold askBeforeCreate
  split
  · rfl
  · rename_i hook hHook
    exact hSpares.beforeCreate hook hHook desk.world draft

theorem askBeforeUpdate_remote (hSpares : options.SparesRemote) {old : F.Resource}
    {actions : List F.Action} :
    (desk.askBeforeUpdate options draft old actions).2.world.remote = desk.world.remote := by
  unfold askBeforeUpdate
  split
  · rfl
  · rename_i hook hHook
    exact hSpares.beforeUpdate hook hHook desk.world draft old actions

/-- A draft that the hook keeps has the key that it had, set or not. -/
theorem draftKey_askBeforeCreate (hKeeps : options.KeepsKeys) {kept : F.Draft}
    (hKept : (desk.askBeforeCreate options draft).1 = some kept) :
    F.draftKey kept = F.draftKey draft := by
  unfold askBeforeCreate at hKept
  split at hKept
  · cases hKept
    rfl
  · rename_i hook hHook
    exact hKeeps hook hHook desk.world draft kept hKept

theorem keyOf_askBeforeCreate (hKeeps : options.KeepsKeys) {kept : F.Draft}
    (hKept : (desk.askBeforeCreate options draft).1 = some kept) :
    F.keyOf kept = F.keyOf draft :=
  congrArg (Option.getD · "") (draftKey_askBeforeCreate hKeeps hKept)

/-! ## How a draft ends -/

theorem create_isEnd : (desk.create options draft).1.isEnd = true := by
  simp only [create]
  split
  · rfl
  · split <;> rfl

/-- An attempt at an update ends a draft in success or as failed; it skips none. -/
theorem attemptUpdate_ends {old : F.Resource} {phase : Phase}
    (hEnded : (desk.attemptUpdate options draft old).1 = .ended phase) :
    phase.isEnd = true ∧ phase ≠ .skipped := by
  simp only [attemptUpdate] at hEnded
  split at hEnded
  · cases hEnded
    decide
  · cases hEnded
    decide
  · split at hEnded
    · cases hEnded
      decide
    · split at hEnded
      · cases hEnded
        decide
      · split at hEnded <;> cases hEnded
        decide

theorem update_ends {old : F.Resource} :
    (desk.update options draft old).1.isEnd = true ∧
      (desk.update options draft old).1 ≠ .skipped := by
  simp only [update]
  split
  · rename_i phase hEnded
    exact attemptUpdate_ends hEnded
  · split
    · simp only [retryUpdate]
      split
      · rename_i phase hEnded
        exact attemptUpdate_ends hEnded
      · exact ⟨rfl, by simp⟩
    · exact ⟨rfl, by simp⟩
    · exact ⟨rfl, by simp⟩

/-- A processed draft has a resource in its state, has failed, or was dropped. -/
theorem sync_isEnd {old : Option F.Resource} : (desk.sync options draft old).1.isEnd = true := by
  unfold sync
  split
  · exact update_ends.1
  · exact create_isEnd

/-! ## The keys of the remote -/

/-- The keys of the remote after a draft has ended in a phase. -/
def keysAfter (keys : KeySet) (draft : F.Draft) (phase : Phase) : KeySet :=
  if phase = .created then keys.insert (F.keyOf draft) else keys

theorem mem_keysAfter {keys : KeySet} {phase : Phase} {key : String} :
    key ∈ keysAfter keys draft phase ↔ key ∈ keys ∨ (phase = .created ∧ key = F.keyOf draft) := by
  unfold keysAfter
  by_cases hPhase : phase = .created
  · simp [hPhase, or_comm]
  · simp [hPhase]

theorem submitCreation_keys {kept : F.Draft} :
    (desk.submitCreation draft kept).2.world.remote.resources.keys =
      match (desk.submitCreation draft kept).1 with
      | .ok (some _) => desk.world.remote.resources.keys.insert (F.keyOf kept)
      | _ => desk.world.remote.resources.keys := Remote.create_keys

theorem create_keys (hQuiet : options.Quiet) (hKeeps : options.KeepsKeys) :
    (desk.create options draft).2.world.remote.resources.keys =
      keysAfter desk.world.remote.resources.keys draft (desk.create options draft).1 := by
  have hRemote := askBeforeCreate_remote hQuiet.sparesRemote desk draft
  simp only [create]
  split
  · rw [hRemote]
    rfl
  · rename_i kept hKept
    have hKeys := @submitCreation_keys F σ draft (desk.askBeforeCreate options draft).2 kept
    rw [keyOf_askBeforeCreate hKeeps hKept, hRemote] at hKeys
    split <;> rename_i hAnswer <;> rw [hAnswer] at hKeys
    · rw [enterIf_world, hKeys]
      rfl
    · exact hKeys
    · rw [fail_world, hKeys]
      rfl

/-- An attempt at an update adds no key and never ends as created. -/
theorem attemptUpdate_keys (hQuiet : options.Quiet) (desk : Desk F σ) (draft : F.Draft)
    (old : F.Resource) :
    (desk.attemptUpdate options draft old).2.world.remote.resources.keys =
        desk.world.remote.resources.keys ∧
      (desk.attemptUpdate options draft old).1 ≠ .ended .created := by
  simp only [attemptUpdate]
  split
  · simp
  · simp
  · rename_i proposed _ _
    have hAsked : (desk.askBeforeUpdate options draft old proposed).2.world.remote =
        desk.world.remote := askBeforeUpdate_remote hQuiet.sparesRemote
    split
    · simp [hAsked]
    · have hCall (actions : List F.Action) :
          ((desk.askBeforeUpdate options draft old proposed).2.submitUpdate draft old
            actions).2.world.remote.resources.keys = desk.world.remote.resources.keys := by
        rw [← hAsked]
        exact Remote.update_keys
      split
      · simp [hCall]
      · split <;> simp [failUpdate, hCall]

theorem retryUpdate_keys (hQuiet : options.Quiet) (desk : Desk F σ) (draft : F.Draft)
    (latest : F.Resource) :
    (desk.retryUpdate options draft latest).2.world.remote.resources.keys =
        desk.world.remote.resources.keys ∧
      (desk.retryUpdate options draft latest).1 ≠ .created := by
  have hAttempt := attemptUpdate_keys hQuiet desk draft latest
  simp only [retryUpdate]
  split
  · rename_i phase hPhase
    rw [hPhase] at hAttempt
    exact ⟨hAttempt.1, fun hCreated => hAttempt.2 (congrArg Attempt.ended hCreated)⟩
  · simp [failUpdate, hAttempt.1]

theorem update_keys (hQuiet : options.Quiet) (desk : Desk F σ) (draft : F.Draft)
    (old : F.Resource) :
    (desk.update options draft old).2.world.remote.resources.keys =
        desk.world.remote.resources.keys ∧
      (desk.update options draft old).1 ≠ .created := by
  have hAttempt := attemptUpdate_keys hQuiet desk draft old
  have hFetched : ((desk.attemptUpdate options draft old).2.refetch old).2.world.remote.resources =
      (desk.attemptUpdate options draft old).2.world.remote.resources := rfl
  simp only [update]
  split
  · rename_i phase hPhase
    rw [hPhase] at hAttempt
    exact ⟨hAttempt.1, fun hCreated => hAttempt.2 (congrArg Attempt.ended hCreated)⟩
  · split
    · rename_i latest _
      have hRetry := retryUpdate_keys hQuiet
        ((desk.attemptUpdate options draft old).2.refetch old).2 draft latest
      rw [hFetched, hAttempt.1] at hRetry
      exact hRetry
    · simp [failUpdate, hFetched, hAttempt.1]
    · simp [failUpdate, hFetched, hAttempt.1]

/-- The keys of the remote grow by the key of a created draft and by no other. -/
theorem process_keys (hQuiet : options.Quiet) (hKeeps : options.KeepsKeys)
    {old : Option F.Resource} :
    (desk.process options draft old).2.world.remote.resources.keys =
      keysAfter desk.world.remote.resources.keys draft (desk.process options draft old).1 := by
  show (desk.sync options draft old).2.world.remote.resources.keys =
    keysAfter desk.world.remote.resources.keys draft (desk.sync options draft old).1
  unfold sync
  split
  · rename_i old
    have hUpdate := update_keys hQuiet desk draft old
    rw [keysAfter, if_neg hUpdate.2, hUpdate.1]
  · exact create_keys hQuiet hKeeps

end Desk

end CatalogSync
