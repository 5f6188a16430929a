import CatalogSync.Catalog.Families
import CatalogSync.Proofs.Processing
import CatalogSync.Proofs.Reconciling
import CatalogSync.Sync.Course
import Mathlib.Data.List.Forall2

/-!
# An absent list and an empty list are the same request

Product types and tax categories have a list that a draft may leave out. One constructor of drafts
leaves it out and another one starts it empty, and both mean the same: everything is to be removed,
or nothing is there to begin with. Reconciling takes a short cut for an absent list, which comes to
what the whole algorithm comes to for an empty one.

So the two kinds of drafts cannot be told apart by their family, and an engine cannot either. Two
engines that are given alike drafts go through the same stages with the same answers; what they
leave behind differs in nothing but the drafts that are written down in logs and journals. That is
shown for any drafts that a family treats alike.

## Main results

* `Desk.process_twins`: alike drafts end alike.
* `Engine.follow_twins`: whatever an engine does with alike drafts comes to the same.
* `Family.Fills.absent_is_empty`: nothing depends on whether a list is absent or empty.
-/

namespace CatalogSync

open KeyedList (Policy)
open KeyedList.Policy (reconcile_none reconcile_getD)

variable {F : Family} {σ : Type} {Alike : F.Draft → F.Draft → Prop}

/-! ## Drafts that are alike -/

/-- A family treats drafts alike: they have the same key, they differ from every resource by the
same actions, and the same resource is created from them. -/
structure Family.TreatsAlike (F : Family) (Alike : F.Draft → F.Draft → Prop) : Prop where
  draftKey : ∀ {left right}, Alike left right → F.draftKey left = F.draftKey right
  diff : ∀ {left right}, Alike left right → ∀ old, F.diff old left = F.diff old right
  materialize : ∀ {left right}, Alike left right →
    ∀ id, F.materialize left id = F.materialize right id

theorem Family.TreatsAlike.keyOf (hFamily : F.TreatsAlike Alike) {left right : F.Draft}
    (hAlike : Alike left right) : F.keyOf left = F.keyOf right :=
  congrArg (Option.getD · "") (hFamily.draftKey hAlike)

theorem Family.TreatsAlike.hasKey (hFamily : F.TreatsAlike Alike) {left right : F.Draft}
    (hAlike : Alike left right) : F.hasKey left = F.hasKey right :=
  congrArg (· != "") (hFamily.keyOf hAlike)

theorem Family.TreatsAlike.keysOf (hFamily : F.TreatsAlike Alike) {left right : List F.Draft}
    (hAlike : List.Forall₂ Alike left right) : F.keysOf left = F.keysOf right := by
  have hKeys : left.map F.keyOf = right.map F.keyOf := by
    induction hAlike with
    | nil => rfl
    | cons hHead _ ih => rw [List.map_cons, List.map_cons, hFamily.keyOf hHead, ih]
  rw [Family.keysOf, Family.keysOf, hKeys]

/-! ## Worlds that differ in drafts -/

/-- Calls that are the same but for drafts that are alike. -/
inductive Call.Twins (Alike : F.Draft → F.Draft → Prop) : Call F → Call F → Prop
  | same (call : Call F) : Twins Alike call call
  | create {left right : F.Draft} (hAlike : Alike left right)
      (answer : Except RemoteFault (Option F.Resource)) :
      Twins Alike (.create left answer) (.create right answer)

/-- Remotes in the same state, with logs that are the same but for drafts that are alike. -/
def Remote.Twins (Alike : F.Draft → F.Draft → Prop) (left right : Remote F) : Prop :=
  ∃ log, right = { left with log } ∧ List.Forall₂ (Call.Twins Alike) left.log log

/-- Worlds that are the same but for the drafts in the log of the remote. -/
def World.Twins (Alike : F.Draft → F.Draft → Prop) (left right : World F σ) : Prop :=
  ∃ remote, right = left.withRemote remote ∧ left.remote.Twins Alike remote

namespace Remote

variable {left right : Remote F}

theorem Twins.refl (remote : Remote F) : remote.Twins Alike remote :=
  ⟨remote.log, rfl, List.forall₂_same.mpr fun call _ => .same call⟩

theorem Twins.resources (hTwins : left.Twins Alike right) : left.resources = right.resources := by
  obtain ⟨log, rfl, -⟩ := hTwins
  rfl

theorem Twins.lookup (hTwins : left.Twins Alike right) (keys : KeySet) :
    (left.lookup keys).1 = (right.lookup keys).1 ∧
      (left.lookup keys).2.Twins Alike (right.lookup keys).2 := by
  obtain ⟨log, rfl, hLog⟩ := hTwins
  exact ⟨rfl, _, rfl, List.rel_append hLog (.cons (.same _) .nil)⟩

theorem Twins.fetch (hTwins : left.Twins Alike right) (id : String) :
    (left.fetch id).1 = (right.fetch id).1 ∧
      (left.fetch id).2.Twins Alike (right.fetch id).2 := by
  obtain ⟨log, rfl, hLog⟩ := hTwins
  exact ⟨rfl, _, rfl, List.rel_append hLog (.cons (.same _) .nil)⟩

theorem Twins.update (hTwins : left.Twins Alike right) (old : F.Resource)
    (actions : List F.Action) :
    (left.update old actions).1 = (right.update old actions).1 ∧
      (left.update old actions).2.Twins Alike (right.update old actions).2 := by
  obtain ⟨log, rfl, hLog⟩ := hTwins
  exact ⟨rfl, _, rfl, List.rel_append hLog (.cons (.same _) .nil)⟩

/-- The creation of alike drafts is answered alike. -/
theorem createAnswer_alike (hFamily : F.TreatsAlike Alike) {remote : Remote F}
    {draft other : F.Draft} (hAlike : Alike draft other) :
    remote.createAnswer draft = remote.createAnswer other := by
  unfold createAnswer
  simp only [hFamily.draftKey hAlike, hFamily.materialize hAlike]

theorem Twins.create (hFamily : F.TreatsAlike Alike) (hTwins : left.Twins Alike right)
    {draft other : F.Draft} (hAlike : Alike draft other) :
    (left.create draft).1 = (right.create other).1 ∧
      (left.create draft).2.Twins Alike (right.create other).2 := by
  obtain ⟨log, rfl, hLog⟩ := hTwins
  have hAnswer : left.createAnswer draft = left.createAnswer other :=
    createAnswer_alike hFamily hAlike
  refine ⟨hAnswer, log ++ [.create other (left.createAnswer other)], ?_, ?_⟩
  · simp only [Remote.create, hAnswer, hFamily.keyOf hAlike]
    rfl
  · refine List.rel_append hLog (.cons ?_ .nil)
    rw [hAnswer]
    exact .create hAlike _

end Remote

/-- Hooks treat drafts alike: asked about alike drafts in twin worlds, they leave alike drafts, the
same actions, and twin worlds. -/
structure Options.TreatsAlike (options : Options F σ) (Alike : F.Draft → F.Draft → Prop) : Prop where
  beforeCreate : ∀ hook, options.beforeCreate = some hook →
    ∀ {left right : World F σ} {draft other : F.Draft}, left.Twins Alike right →
      Alike draft other →
        Option.Rel Alike (hook left draft).1 (hook right other).1 ∧
          (hook left draft).2.Twins Alike (hook right other).2
  beforeUpdate : ∀ hook, options.beforeUpdate = some hook →
    ∀ {left right : World F σ} {draft other : F.Draft} (old : F.Resource)
      (actions : List F.Action), left.Twins Alike right → Alike draft other →
        (hook left draft old actions).1 = (hook right other old actions).1 ∧
          (hook left draft old actions).2.Twins Alike (hook right other old actions).2

theorem Options.Hookless.treatsAlike {options : Options F σ} (hHookless : options.Hookless) :
    options.TreatsAlike Alike where
  beforeCreate hook hHook := by simp [hHookless.beforeCreate] at hHook
  beforeUpdate hook hHook := by simp [hHookless.beforeUpdate] at hHook

/-! ## Desks that differ in drafts -/

namespace Event

/-- Events that are the same but for drafts that are alike. -/
inductive Twins (Alike : F.Draft → F.Draft → Prop) : Event F → Event F → Prop
  | same (event : Event F) : Twins Alike event event
  | creating {draft other : F.Draft} {kept twin : Option F.Draft} (hAlike : Alike draft other)
      (hKept : Option.Rel Alike kept twin) :
      Twins Alike (.creating draft kept) (.creating other twin)
  | updating {draft other : F.Draft} (hAlike : Alike draft other) (old : F.Resource)
      (actions : List F.Action) :
      Twins Alike (.updating draft old actions) (.updating other old actions)
  | submitting {draft other : F.Draft} {left right : Remote F} (hAlike : Alike draft other)
      (hRemotes : left.Twins Alike right) :
      Twins Alike (.submitting draft left) (.submitting other right)
  | ended {draft other : F.Draft} {left right : Remote F} (hAlike : Alike draft other)
      (phase : Phase) (hRemotes : left.Twins Alike right) :
      Twins Alike (.ended draft phase left) (.ended other phase right)

/-- Whether an event tells somebody outside of it: a report or an announcement. -/
def isMessage : Event F → Bool
  | .failure _ | .warning _ | .created _ | .updated .. => true
  | _ => false

theorem messages_of_twins {left right : List (Event F)}
    (hTwins : List.Forall₂ (Twins Alike) left right) :
    left.filter isMessage = right.filter isMessage := by
  induction hTwins with
  | nil => rfl
  | cons hHead _ ih =>
      rw [List.filter_cons, List.filter_cons, ih]
      cases hHead <;> rfl

end Event

namespace Desk

/-- Desks that are the same but for drafts that are alike. -/
structure Twins (Alike : F.Draft → F.Draft → Prop) (left right : Desk F σ) : Prop where
  world : left.world.Twins Alike right.world
  tally : left.tally = right.tally
  journal : List.Forall₂ (Event.Twins Alike) left.journal right.journal

/-- Results of some work at two desks: the same answer, and twin desks. -/
structure Agree {α : Type} (Alike : F.Draft → F.Draft → Prop) (left right : α × Desk F σ) :
    Prop where
  answer : left.1 = right.1
  desk : Twins Alike left.2 right.2

variable {options : Options F σ} {left right : Desk F σ} {draft other : F.Draft}

theorem Twins.refl (desk : Desk F σ) : Twins Alike desk desk :=
  ⟨⟨desk.world.remote, rfl, .refl _⟩, rfl, List.forall₂_same.mpr fun event _ => .same event⟩

theorem Twins.remote (hTwins : Twins Alike left right) :
    left.world.remote.Twins Alike right.world.remote := by
  obtain ⟨remote, hWorld, hRemote⟩ := hTwins.world
  rw [hWorld]
  exact hRemote

theorem Twins.enter (hTwins : Twins Alike left right) {event twin : Event F}
    (hEvent : event.Twins Alike twin) : Twins Alike (left.enter event) (right.enter twin) :=
  ⟨hTwins.world, hTwins.tally, List.rel_append hTwins.journal (.cons hEvent .nil)⟩

theorem Twins.enterIf (hTwins : Twins Alike left right) (asked : Bool) (event : Event F) :
    Twins Alike (left.enterIf asked event) (right.enterIf asked event) := by
  unfold Desk.enterIf
  split
  · exact hTwins.enter (.same event)
  · exact hTwins

theorem Twins.withWorld (hTwins : Twins Alike left right) {world twin : World F σ}
    (hWorld : world.Twins Alike twin) :
    Twins Alike (left.withWorld world) (right.withWorld twin) :=
  ⟨hWorld, hTwins.tally, hTwins.journal⟩

theorem Twins.withRemote (hTwins : Twins Alike left right) {remote twin : Remote F}
    (hRemote : remote.Twins Alike twin) :
    Twins Alike (left.withRemote remote) (right.withRemote twin) := by
  obtain ⟨before, hWorld, -⟩ := hTwins.world
  refine hTwins.withWorld ⟨twin, ?_, hRemote⟩
  rw [hWorld]
  rfl

theorem Twins.withTally (hTwins : Twins Alike left right) (change : Tally → Tally) :
    Twins Alike (left.withTally (change left.tally)) (right.withTally (change right.tally)) :=
  ⟨hTwins.world, congrArg change hTwins.tally, hTwins.journal⟩

theorem Twins.fail (hTwins : Twins Alike left right) (message : String) (cause : Cause) :
    Twins Alike (left.fail options message cause) (right.fail options message cause) :=
  hTwins.enterIf _ _

theorem Twins.failMany (hTwins : Twins Alike left right) (message : String) (cause : Cause)
    (count : Nat) :
    Twins Alike (left.failMany options message cause count)
      (right.failMany options message cause count) := by
  have hFailed : Twins Alike (left.fail options message cause) (right.fail options message cause) :=
    hTwins.fail message cause
  exact ⟨hFailed.world, congrArg (·.addFailed (UInt64.ofNat count)) hTwins.tally, hFailed.journal⟩

theorem Twins.failUpdate (hFamily : F.TreatsAlike Alike) (hTwins : Twins Alike left right)
    (hAlike : Alike draft other) (reason : String) (cause : Cause) :
    Twins Alike (left.failUpdate options draft reason cause)
      (right.failUpdate options other reason cause) := by
  unfold Desk.failUpdate
  rw [hFamily.keyOf hAlike]
  exact hTwins.fail _ _

/-! ## One draft -/

theorem askBeforeCreate_twins (hOptions : options.TreatsAlike Alike)
    (hTwins : Twins Alike left right) (hAlike : Alike draft other) :
    Option.Rel Alike (left.askBeforeCreate options draft).1 (right.askBeforeCreate options other).1 ∧
      Twins Alike (left.askBeforeCreate options draft).2
        (right.askBeforeCreate options other).2 := by
  unfold askBeforeCreate
  cases hHook : options.beforeCreate with
  | none => exact ⟨.some hAlike, hTwins⟩
  | some hook =>
      obtain ⟨hKept, hWorld⟩ := hOptions.beforeCreate hook hHook hTwins.world hAlike
      exact ⟨hKept, (hTwins.enter (.creating hAlike hKept)).withWorld hWorld⟩

theorem askBeforeUpdate_twins (hOptions : options.TreatsAlike Alike)
    (hTwins : Twins Alike left right) (hAlike : Alike draft other) (old : F.Resource)
    (actions : List F.Action) :
    Agree Alike (left.askBeforeUpdate options draft old actions)
      (right.askBeforeUpdate options other old actions) := by
  unfold askBeforeUpdate
  cases hHook : options.beforeUpdate with
  | none => exact ⟨rfl, hTwins⟩
  | some hook =>
      obtain ⟨hKept, hWorld⟩ := hOptions.beforeUpdate hook hHook old actions hTwins.world hAlike
      exact ⟨hKept, (hTwins.enter (.updating hAlike old actions)).withWorld hWorld⟩

theorem submitCreation_twins (hFamily : F.TreatsAlike Alike) (hTwins : Twins Alike left right)
    (hAlike : Alike draft other) {kept twin : F.Draft} (hKept : Alike kept twin) :
    Agree Alike (left.submitCreation draft kept) (right.submitCreation other twin) := by
  obtain ⟨hAnswer, hRemote⟩ := hTwins.remote.create hFamily hKept
  exact ⟨hAnswer, (hTwins.enter (.submitting hAlike hTwins.remote)).withRemote hRemote⟩

theorem submitUpdate_twins (hTwins : Twins Alike left right) (hAlike : Alike draft other)
    (old : F.Resource) (actions : List F.Action) :
    Agree Alike (left.submitUpdate draft old actions) (right.submitUpdate other old actions) := by
  obtain ⟨hAnswer, hRemote⟩ := hTwins.remote.update old actions
  exact ⟨hAnswer, (hTwins.enter (.submitting hAlike hTwins.remote)).withRemote hRemote⟩

theorem refetch_twins (hTwins : Twins Alike left right) (old : F.Resource) :
    Agree Alike (left.refetch old) (right.refetch old) := by
  obtain ⟨hAnswer, hRemote⟩ := hTwins.remote.fetch (F.id old)
  exact ⟨hAnswer, hTwins.withRemote hRemote⟩

theorem create_twins (hFamily : F.TreatsAlike Alike) (hOptions : options.TreatsAlike Alike)
    (hTwins : Twins Alike left right) (hAlike : Alike draft other) :
    Agree Alike (left.create options draft) (right.create options other) := by
  obtain ⟨hKept, hAsked⟩ := askBeforeCreate_twins hOptions hTwins hAlike
  simp only [create]
  generalize (left.askBeforeCreate options draft).1 = kept at hKept ⊢
  generalize (right.askBeforeCreate options other).1 = twin at hKept ⊢
  cases hKept with
  | none => exact ⟨rfl, hAsked⟩
  | some hKept =>
      obtain ⟨hAnswer, hCall⟩ := submitCreation_twins hFamily hAsked hAlike hKept
      simp only [← hAnswer, ← hFamily.keyOf hAlike]
      split
      · exact ⟨rfl, hCall.enterIf _ _⟩
      · exact ⟨rfl, hCall⟩
      · exact ⟨rfl, hCall.fail _ _⟩

theorem attemptUpdate_twins (hFamily : F.TreatsAlike Alike) (hOptions : options.TreatsAlike Alike)
    (hTwins : Twins Alike left right) (hAlike : Alike draft other) (old : F.Resource) :
    Agree Alike (left.attemptUpdate options draft old) (right.attemptUpdate options other old) := by
  simp only [attemptUpdate, ← hFamily.diff hAlike old, ← hFamily.keyOf hAlike]
  split
  · exact ⟨rfl, hTwins.fail _ _⟩
  · exact ⟨rfl, hTwins⟩
  · rename_i actions _ _
    obtain ⟨hSubmitted, hAsked⟩ := askBeforeUpdate_twins hOptions hTwins hAlike old actions
    simp only [← hSubmitted]
    split
    · exact ⟨rfl, hAsked⟩
    · obtain ⟨hAnswer, hCall⟩ := submitUpdate_twins hAsked hAlike old
        (left.askBeforeUpdate options draft old actions).1
      simp only [← hAnswer]
      split
      · exact ⟨rfl, hCall.enterIf _ _⟩
      · split
        · exact ⟨rfl, hCall⟩
        · exact ⟨rfl, hCall.failUpdate hFamily hAlike _ _⟩

theorem retryUpdate_twins (hFamily : F.TreatsAlike Alike) (hOptions : options.TreatsAlike Alike)
    (hTwins : Twins Alike left right) (hAlike : Alike draft other) (latest : F.Resource) :
    Agree Alike (left.retryUpdate options draft latest) (right.retryUpdate options other latest) := by
  obtain ⟨hAttempt, hTried⟩ := attemptUpdate_twins hFamily hOptions hTwins hAlike latest
  simp only [retryUpdate, ← hAttempt]
  split
  · exact ⟨rfl, hTried⟩
  · exact ⟨rfl, hTried.failUpdate hFamily hAlike _ _⟩

theorem update_twins (hFamily : F.TreatsAlike Alike) (hOptions : options.TreatsAlike Alike)
    (hTwins : Twins Alike left right) (hAlike : Alike draft other) (old : F.Resource) :
    Agree Alike (left.update options draft old) (right.update options other old) := by
  obtain ⟨hAttempt, hTried⟩ := attemptUpdate_twins hFamily hOptions hTwins hAlike old
  obtain ⟨hAnswer, hFetched⟩ := refetch_twins hTried old
  simp only [update, ← hAttempt, ← hAnswer]
  split
  · exact ⟨rfl, hTried⟩
  · split
    · exact retryUpdate_twins hFamily hOptions hFetched hAlike _
    · exact ⟨rfl, hFetched.failUpdate hFamily hAlike _ _⟩
    · exact ⟨rfl, hFetched.failUpdate hFamily hAlike _ _⟩

/-- Alike drafts end alike. -/
theorem process_twins (hFamily : F.TreatsAlike Alike) (hOptions : options.TreatsAlike Alike)
    (hTwins : Twins Alike left right) (hAlike : Alike draft other) (old : Option F.Resource) :
    Agree Alike (left.process options draft old) (right.process options other old) := by
  have hSynced : Agree Alike (left.sync options draft old) (right.sync options other old) := by
    cases old with
    | none => exact create_twins hFamily hOptions hTwins hAlike
    | some old => exact update_twins hFamily hOptions hTwins hAlike old
  obtain ⟨hPhase, hSynced⟩ := hSynced
  refine ⟨hPhase, ?_⟩
  simp only [process, ← hPhase]
  exact (hSynced.enter (.ended hAlike _ hSynced.remote)).withTally (·.record _)

/-! ## Batches -/

theorem lookup_twins (hTwins : Twins Alike left right) (keys : KeySet) :
    Agree Alike (left.lookup keys) (right.lookup keys) := by
  obtain ⟨hAnswer, hRemote⟩ := hTwins.remote.lookup keys
  exact ⟨hAnswer, hTwins.withRemote hRemote⟩

theorem processAll_twins (hFamily : F.TreatsAlike Alike) (hOptions : options.TreatsAlike Alike)
    (hTwins : Twins Alike left right) {found : KeyMap F.Resource} {drafts others : List F.Draft}
    (hAlike : List.Forall₂ Alike drafts others) :
    Agree Alike (processAll options found left drafts) (processAll options found right others) := by
  induction hAlike generalizing left right with
  | nil => exact ⟨rfl, hTwins⟩
  | cons hHead _ ih =>
      obtain ⟨hPhase, hProcessed⟩ := process_twins hFamily hOptions hTwins hHead _
      obtain ⟨hOutcomes, hRest⟩ := ih hProcessed
      simp only [processAll, ← hFamily.draftKey hHead, ← hFamily.keyOf hHead]
      exact ⟨congrArg₂ List.cons (congrArg _ hPhase) hOutcomes, hRest⟩

/-- The screening lets alike drafts pass. -/
theorem screen_twins (options : Options F σ) (hFamily : F.TreatsAlike Alike)
    (hTwins : Twins Alike left right) {drafts others : List (Option F.Draft)}
    (hAlike : List.Forall₂ (Option.Rel Alike) drafts others) :
    List.Forall₂ Alike (screen options left drafts).1 (screen options right others).1 ∧
      Twins Alike (screen options left drafts).2 (screen options right others).2 := by
  induction hAlike generalizing left right with
  | nil => exact ⟨.nil, hTwins⟩
  | cons hHead _ ih =>
      cases hHead with
      | none => exact ih (hTwins.failMany _ _ _)
      | @some draft other hHead =>
          simp only [screen, ← hFamily.hasKey hHead]
          by_cases hKey : F.hasKey draft = true
          · simp only [if_pos hKey]
            obtain ⟨hRest, hScreened⟩ := ih hTwins
            exact ⟨.cons hHead hRest, hScreened⟩
          · simp only [if_neg hKey]
            exact ih (hTwins.failMany _ _ _)

theorem syncBatch_twins (hFamily : F.TreatsAlike Alike) (hOptions : options.TreatsAlike Alike)
    (hTwins : Twins Alike left right) {drafts others : List F.Draft}
    (hAlike : List.Forall₂ Alike drafts others) :
    Twins Alike (left.syncBatch options drafts).2 (right.syncBatch options others).2 := by
  have hNone : drafts.isEmpty = others.isEmpty := by cases hAlike <;> rfl
  obtain ⟨hFound, hLooked⟩ := lookup_twins hTwins (F.keysOf drafts)
  simp only [syncBatch, ← hNone, ← hFamily.keysOf hAlike, ← hFound, ← hAlike.length_eq]
  split
  · exact hTwins
  · split
    · exact (processAll_twins hFamily hOptions hLooked hAlike).desk
    · exact hLooked.failMany _ _ _

end Desk

/-! ## Whole runs -/

/-- Errands that are the same but for drafts that are alike. -/
inductive Errand.Twins (Alike : F.Draft → F.Draft → Prop) : Errand F → Errand F → Prop
  | script (errand : Errand F) (hScript : ∀ drafts, errand ≠ .sync drafts) :
      Twins Alike errand errand
  | sync {drafts others : List (Option F.Draft)}
      (hAlike : List.Forall₂ (Option.Rel Alike) drafts others) :
      Twins Alike (.sync drafts) (.sync others)

/-- The pieces of lists that are related element by element are so, too. -/
theorem chunks_forall₂ {α : Type} {R : α → α → Prop} {size : Nat} {hPos : 0 < size}
    {left right : List α} (hRelated : List.Forall₂ R left right) :
    List.Forall₂ (List.Forall₂ R) (chunks size hPos left) (chunks size hPos right) := by
  fun_induction chunks size hPos left generalizing right with
  | case1 =>
      cases hRelated
      rw [chunks_nil]
      exact .nil
  | case2 head tail ih =>
      have hSome : right ≠ [] := by
        rintro rfl
        cases hRelated
      rw [chunks_of_ne_nil hSome]
      exact .cons (List.forall₂_take size hRelated) (ih (List.forall₂_drop size hRelated))

namespace Engine

variable {engine : Engine F σ} {left right : Run F σ}

/-- An engine without a resolver takes twin desks to twin desks. -/
theorem syncBatch_twins (hFamily : F.TreatsAlike Alike)
    (hOptions : engine.options.TreatsAlike Alike) (hPlain : engine.resolver = none)
    (hTwins : left.desk.Twins Alike right.desk) {drafts others : List (Option F.Draft)}
    (hAlike : List.Forall₂ (Option.Rel Alike) drafts others) :
    (engine.syncBatch left drafts).desk.Twins Alike (engine.syncBatch right others).desk := by
  obtain ⟨hPassed, hScreened⟩ := Desk.screen_twins engine.options hFamily hTwins hAlike
  simp only [syncBatch, hPlain]
  exact Desk.syncBatch_twins hFamily hOptions hScreened hPassed

theorem sync_twins (hFamily : F.TreatsAlike Alike)
    (hOptions : engine.options.TreatsAlike Alike) (hPlain : engine.resolver = none)
    (hTwins : left.desk.Twins Alike right.desk) {drafts others : List (Option F.Draft)}
    (hAlike : List.Forall₂ (Option.Rel Alike) drafts others) :
    (engine.sync left drafts).desk.Twins Alike (engine.sync right others).desk := by
  have hBatches : List.Forall₂ (List.Forall₂ (Option.Rel Alike)) (engine.options.batches drafts)
      (engine.options.batches others) := chunks_forall₂ hAlike
  simp only [sync]
  generalize engine.options.batches drafts = batches at hBatches ⊢
  generalize engine.options.batches others = twins at hBatches ⊢
  induction hBatches generalizing left right with
  | nil => exact hTwins
  | cons hHead _ ih => exact ih (syncBatch_twins hFamily hOptions hPlain hTwins hHead)

/-- Scripting takes twin worlds to twin worlds. -/
theorem script_twins {world twin : World F σ} (hTwins : world.Twins Alike twin)
    (errand : Errand F) : (world.script errand).Twins Alike (twin.script errand) := by
  obtain ⟨remote, rfl, log, rfl, hLog⟩ := hTwins
  cases errand <;> exact ⟨_, rfl, _, rfl, hLog⟩

theorem perform_twins (hFamily : F.TreatsAlike Alike)
    (hOptions : engine.options.TreatsAlike Alike) (hPlain : engine.resolver = none)
    (hTwins : left.desk.Twins Alike right.desk) {errand other : Errand F}
    (hAlike : errand.Twins Alike other) :
    (engine.perform left errand).desk.Twins Alike (engine.perform right other).desk := by
  cases hAlike with
  | sync hDrafts => exact sync_twins hFamily hOptions hPlain hTwins hDrafts
  | script _ hScript =>
      cases errand with
      | sync drafts => exact absurd rfl (hScript drafts)
      | _ => exact hTwins.withWorld (script_twins hTwins.world _)

/-- Whatever an engine without a resolver does with alike drafts comes to the same. -/
theorem follow_twins (hFamily : F.TreatsAlike Alike)
    (hOptions : engine.options.TreatsAlike Alike) (hPlain : engine.resolver = none)
    (hTwins : left.desk.Twins Alike right.desk) {errands others : List (Errand F)}
    (hAlike : List.Forall₂ (Errand.Twins Alike) errands others) :
    (engine.follow left errands).desk.Twins Alike (engine.follow right others).desk := by
  induction hAlike generalizing left right with
  | nil => exact hTwins
  | cons hHead _ ih => exact ih (perform_twins hFamily hOptions hPlain hTwins hHead)

end Engine

/-! ## Families with a list that may be absent -/

/-- The draft with an empty list of attributes in place of an absent one. -/
def ProductType.Draft.filled (draft : ProductType.Draft) : ProductType.Draft :=
  { draft with attributes := some (draft.attributes.getD []) }

/-- The draft with an empty list of rates in place of an absent one. -/
def TaxCategory.Draft.filled (draft : TaxCategory.Draft) : TaxCategory.Draft :=
  { draft with rates := some (draft.rates.getD []) }

/-- The families with drafts that may leave a list out, and what puts an empty list in its place. -/
inductive Family.Fills : (F : Family) → (F.Draft → F.Draft) → Prop
  | productType : Fills Family.productType ProductType.Draft.filled
  | taxCategory : Fills Family.taxCategory TaxCategory.Draft.filled

namespace Family.Fills

variable {fill : F.Draft → F.Draft}

theorem draftKey_fill (hFamily : F.Fills fill) (draft : F.Draft) :
    F.draftKey (fill draft) = F.draftKey draft := by
  cases hFamily <;> rfl

/-- The same resource is created from the draft. -/
theorem materialize_fill (hFamily : F.Fills fill) (draft : F.Draft) (id : String) :
    F.materialize (fill draft) id = F.materialize draft id := by
  cases hFamily <;> rfl

/-- The same actions bring a resource into the state of the draft. -/
theorem diff_fill (hFamily : F.Fills fill) (old : F.Resource) (draft : F.Draft) :
    F.diff old (fill draft) = F.diff old draft := by
  cases hFamily with
  | productType =>
      show ProductType.diff old draft.filled = ProductType.diff old draft
      unfold ProductType.diff
      rw [@reconcile_getD _ _ _ _ draft.attributes]
      rfl
  | taxCategory =>
      show TaxCategory.diff old draft.filled = TaxCategory.diff old draft
      unfold TaxCategory.diff
      rw [@reconcile_getD _ _ _ _ draft.rates]
      rfl

/-- Drafts that are the same once their lists are there are treated alike. -/
theorem treatsAlike (hFamily : F.Fills fill) :
    F.TreatsAlike fun left right => fill left = fill right where
  draftKey hFilled := by rw [← hFamily.draftKey_fill, hFilled, hFamily.draftKey_fill]
  diff hFilled old := by rw [← hFamily.diff_fill, hFilled, hFamily.diff_fill]
  materialize hFilled id := by
    rw [← hFamily.materialize_fill, hFilled, hFamily.materialize_fill]

end Family.Fills

/-- The errand with other drafts handed in. -/
def Errand.mapDrafts (f : F.Draft → F.Draft) : Errand F → Errand F
  | .sync drafts => .sync (drafts.map (Option.map f))
  | script => script

/-- Lists with the same images are related element by element. -/
theorem forall₂_of_map_eq {α β : Type} {f : α → β} {left right : List α}
    (hSame : left.map f = right.map f) :
    List.Forall₂ (fun item other => f item = f other) left right := by
  rw [← List.forall₂_eq_eq_eq, List.forall₂_map_left_iff, List.forall₂_map_right_iff] at hSame
  exact hSame

/-- Errands that are the same once their drafts are changed are the same but for the drafts. -/
theorem Errand.twins_of_mapDrafts {f : F.Draft → F.Draft} {errand other : Errand F}
    (hSame : errand.mapDrafts f = other.mapDrafts f) :
    errand.Twins (fun left right => f left = f right) other := by
  cases errand with
  | sync drafts =>
      cases other with
      | sync others =>
          rw [mapDrafts, mapDrafts, Errand.sync.injEq] at hSame
          refine .sync ((forall₂_of_map_eq hSame).imp fun draft twin hDraft => ?_)
          cases draft with
          | none =>
              cases twin with
              | none => exact .none
              | some twin => cases hDraft
          | some draft =>
              cases twin with
              | none => cases hDraft
              | some twin => exact .some (Option.some.inj hDraft)
      | _ => cases hSame
  | _ =>
      cases other <;> cases hSame
      exact .script _ fun _ hSync => nomatch hSync

/-! ## The theorem -/

/--
An absent list and an empty list are the same request. Any policy reconciles any old list with both
in the same way, into the same actions or the same refusal. So for product types and tax categories
it makes no difference, neither to the actions that bring a resource into the state of a draft nor to
the resource that is created from it, whether the draft leaves its list out or has an empty one.

Nor does it make any to an engine that syncs every draft at once, unless a hook tells the drafts
apart. Given the same drafts but for such lists, any number of times and with the same answers
scripted in between, it counts the same outcomes, it reports and announces the same, and the remote
holds the same resources.
-/
theorem Family.Fills.absent_is_empty {F : Family} {fill : F.Draft → F.Draft}
    (hFamily : F.Fills fill) :
    (∀ (ε α : Type) (policy : Policy ε α) (old : List ε),
        policy.reconcile old none = policy.reconcile old (some [])) ∧
      (∀ (old : F.Resource) (draft : F.Draft), F.diff old (fill draft) = F.diff old draft) ∧
      (∀ (draft : F.Draft) (id : String),
        F.materialize (fill draft) id = F.materialize draft id) ∧
      ∀ (σ : Type) (engine : Engine F σ) (run : Run F σ) (errands others : List (Errand F)),
        engine.resolver = none →
        engine.options.TreatsAlike (fun left right => fill left = fill right) →
        errands.map (Errand.mapDrafts fill) = others.map (Errand.mapDrafts fill) →
          (engine.follow run errands).desk.tally = (engine.follow run others).desk.tally ∧
            (engine.follow run errands).desk.journal.filter Event.isMessage =
              (engine.follow run others).desk.journal.filter Event.isMessage ∧
            (engine.follow run errands).desk.world.remote.resources =
              (engine.follow run others).desk.world.remote.resources := by
  refine ⟨fun ε α policy old => reconcile_none, hFamily.diff_fill, hFamily.materialize_fill,
    fun σ engine run errands others hPlain hHooks hSame => ?_⟩
  have hErrands : List.Forall₂ (Errand.Twins fun left right => fill left = fill right)
      errands others :=
    (forall₂_of_map_eq hSame).imp fun _ _ hErrand => Errand.twins_of_mapDrafts hErrand
  have hTwins := Engine.follow_twins hFamily.treatsAlike hHooks hPlain (.refl run.desk) hErrands
  exact ⟨hTwins.tally, Event.messages_of_twins hTwins.journal, hTwins.remote.resources⟩

/-- Whether its attributes are left out or empty, the draft has the one attribute of a product type
removed. -/
theorem Family.Fills.absent_is_empty_shirt :
    let shirt : ProductType :=
      { id := "1", key := "shirt", version := 1, name := "Shirt", description := "Shirts"
        attributes := [⟨"size", .of "en" "Size", .text⟩] }
    let absent : ProductType.Draft :=
      { key := some "shirt", name := "Shirt", description := "Shirts", attributes := none }
    let empty := ProductType.Draft.basic "shirt" "Shirt" "Shirts"
    let engine : Engine Family.productType Unit := { options := { reportsFailures := true } }
    let remote : Remote Family.productType := { ids := toString }
    let run := Run.start { remote := remote.insert shirt, notes := () }
    absent ≠ empty ∧
      ProductType.diff shirt absent = ProductType.diff shirt empty ∧
      (engine.follow run [.sync [some absent]]).desk.tally.updated = 1 ∧
      (engine.follow run [.sync [some absent]]).desk.tally =
        (engine.follow run [.sync [some empty]]).desk.tally ∧
      (engine.follow run [.sync [some absent]]).desk.world.remote.resources =
        (engine.follow run [.sync [some empty]]).desk.world.remote.resources := by
  intro shirt absent empty engine remote run
  have hHookless : engine.options.Hookless := ⟨rfl, rfl⟩
  obtain ⟨-, hDiff, -, hRuns⟩ := Family.Fills.absent_is_empty Family.Fills.productType
  obtain ⟨hTally, -, hResources⟩ := hRuns Unit engine run [.sync [some absent]]
    [.sync [some empty]] rfl hHookless.treatsAlike rfl
  exact ⟨by decide, (hDiff shirt absent).symm, by decide +kernel, hTally, hResources⟩

end CatalogSync
