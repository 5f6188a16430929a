import CatalogSync.Proofs.Lasting

/-!
# Vetoes

The hook before creation may drop a draft. Nothing is reported then and nothing is counted: the
draft just ends as skipped. The journal holds every answer of the hook, so the vetoes are read from
what the hook said, not from how drafts ended, and the two can be compared: the drafts that ended as
skipped are those that the hook dropped, one for one and in the same order.

A hook may also count its vetoes by itself. It comes to the same number as the journal, which misses
none of them and makes none up. Nothing has to be known about the hooks for this.

## Main results

* `Desk.process_vetoed`, `Desk.process_skipped`: a processed draft ends as skipped exactly when the
  hook has dropped it.
* `Engine.follow_vetted`: in every run the skipped drafts are those that the hook dropped.
-/

namespace CatalogSync

variable {F : Family} {σ : Type}

/-! ## Vetoes in the journal -/

namespace Event

/-- The draft that the hook before creation dropped. -/
def vetoed? : Event F → Option F.Draft
  | .creating draft none => some draft
  | _ => none

/-- The draft that ended as skipped. -/
def skipped? : Event F → Option F.Draft
  | .ended draft .skipped _ => some draft
  | _ => none

/-- Whether an event neither holds an answer of the hook before creation nor ends a draft. -/
def isBeside : Event F → Bool
  | .creating .. | .ended .. => false
  | _ => true

variable {event : Event F}

theorem isBeside_of_isIdle (hIdle : event.isIdle = true) : event.isBeside = true := by
  cases event with
  | creating | ended => cases hIdle
  | _ => rfl

theorem isBeside_of_isReport (hReport : event.isReport = true) : event.isBeside = true := by
  cases event with
  | failure | created | updated => rfl
  | _ => cases hReport

theorem vetoed?_of_isBeside (hBeside : event.isBeside = true) : event.vetoed? = none := by
  cases event with
  | creating => cases hBeside
  | _ => rfl

theorem skipped?_of_isBeside (hBeside : event.isBeside = true) : event.skipped? = none := by
  cases event with
  | ended => cases hBeside
  | _ => rfl

end Event

/-- The hook before creation drops a draft when it is asked about it in a certain world. -/
def Options.Vetoes (options : Options F σ) (draft : F.Draft) : Prop :=
  ∃ hook world, options.beforeCreate = some hook ∧ (hook world draft).1 = none

/-- What hooks and resolver remember shows how many drafts the hook before creation has dropped. -/
structure Engine.Remembers (engine : Engine F σ) (count : σ → Nat) : Prop where
  beforeCreate : ∀ hook, engine.options.beforeCreate = some hook → ∀ world draft,
    count (hook world draft).2.notes =
      count world.notes + if (hook world draft).1 = none then 1 else 0
  beforeUpdate : ∀ hook, engine.options.beforeUpdate = some hook → ∀ world draft old actions,
    count (hook world draft old actions).2.notes = count world.notes
  resolver : ∀ resolver, engine.resolver = some resolver → ∀ world keys,
    count (resolver world keys).2.notes = count world.notes

namespace Desk

variable {options : Options F σ} {engine : Engine F σ} {notes : σ} {draft : F.Draft}
  {desk before after : Desk F σ} {old : F.Resource}

/-- The drafts that the hook before creation dropped, the earliest first. -/
def vetoed (desk : Desk F σ) : List F.Draft := desk.journal.filterMap Event.vetoed?

/-- The number of drafts that the hook before creation dropped. -/
def vetoes (desk : Desk F σ) : Nat := desk.vetoed.length

/-- The drafts that ended as skipped, the earliest first. -/
def skipped (desk : Desk F σ) : List F.Draft := desk.journal.filterMap Event.skipped?

theorem vetoed_of_beside (hJournal : Appends Event.isBeside before.journal after.journal) :
    after.vetoed = before.vetoed := hJournal.filterMap_eq fun _ => Event.vetoed?_of_isBeside

theorem skipped_of_beside (hJournal : Appends Event.isBeside before.journal after.journal) :
    after.skipped = before.skipped := hJournal.filterMap_eq fun _ => Event.skipped?_of_isBeside

theorem skipped_of_idle (hJournal : Appends Event.isIdle before.journal after.journal) :
    after.skipped = before.skipped :=
  skipped_of_beside (hJournal.mono fun _ => Event.isBeside_of_isIdle)

/-! ## One draft -/

/-- The hook is asked about a draft, and its veto enters the journal. -/
theorem askBeforeCreate_vetoed : (desk.askBeforeCreate options draft).2.vetoed =
    desk.vetoed ++ if (desk.askBeforeCreate options draft).1 = none then [draft] else [] := by
  unfold askBeforeCreate
  cases options.beforeCreate with
  | none => simp
  | some hook =>
      show (desk.journal ++ [Event.creating draft (hook desk.world draft).1]).filterMap _ = _
      rw [List.filterMap_append]
      cases (hook desk.world draft).1 <;> simp [vetoed, Event.vetoed?]

theorem askBeforeCreate_skipped :
    (desk.askBeforeCreate options draft).2.skipped = desk.skipped := by
  unfold askBeforeCreate
  split
  · rfl
  · exact List.filterMap_append.trans (List.append_nil _)

/-- What an update enters is beside the vetoes. -/
theorem update_beside :
    Appends Event.isBeside desk.journal (desk.update options draft old).2.journal := by
  have hUpdating : Updating options draft fun later =>
      Appends Event.isBeside desk.journal later.journal := by
    constructor
    · exact fun hReport hBefore => hBefore.trans (.single (Event.isBeside_of_isReport hReport))
    · intro later old actions hBefore
      unfold askBeforeUpdate
      split
      · exact hBefore
      · exact hBefore.trans (.single rfl)
    · exact fun _ _ _ hBefore => hBefore.trans (.single rfl)
    · exact fun _ hBefore => hBefore
  exact hUpdating.update .refl

/-- What a creation enters after the answer of the hook is beside the vetoes. -/
theorem create_beside : Appends Event.isBeside (desk.askBeforeCreate options draft).2.journal
    (desk.create options draft).2.journal := by
  have hCall (kept : F.Draft) : Appends Event.isBeside
      (desk.askBeforeCreate options draft).2.journal
      ((desk.askBeforeCreate options draft).2.submitCreation draft kept).2.journal := .single rfl
  simp only [create]
  split
  · exact .refl
  · rename_i kept hKept
    split
    · exact (hCall kept).trans (enterIf_journal rfl)
    · exact hCall kept
    · exact (hCall kept).trans (enterIf_journal rfl)

/-- A draft is dropped exactly when it is about to end as skipped. -/
theorem sync_vetoed (desk : Desk F σ) (draft : F.Draft) (old : Option F.Resource) :
    (desk.sync options draft old).2.vetoed =
      desk.vetoed ++ if (desk.sync options draft old).1 = .skipped then [draft] else [] := by
  cases old with
  | some old =>
      show (desk.update options draft old).2.vetoed =
        desk.vetoed ++ if (desk.update options draft old).1 = .skipped then [draft] else []
      rw [if_neg update_ends.2, vetoed_of_beside update_beside, List.append_nil]
  | none =>
      show (desk.create options draft).2.vetoed =
        desk.vetoed ++ if (desk.create options draft).1 = .skipped then [draft] else []
      rw [vetoed_of_beside create_beside, askBeforeCreate_vetoed]
      simp only [create_eq_skipped_iff]

theorem sync_skipped (desk : Desk F σ) (draft : F.Draft) (old : Option F.Resource) :
    (desk.sync options draft old).2.skipped = desk.skipped := by
  cases old with
  | some old => exact skipped_of_beside update_beside
  | none => exact (skipped_of_beside create_beside).trans askBeforeCreate_skipped

theorem process_vetoed (desk : Desk F σ) (draft : F.Draft) (old : Option F.Resource) :
    (desk.process options draft old).2.vetoed =
      desk.vetoed ++ if (desk.process options draft old).1 = .skipped then [draft] else [] := by
  have hClosed : (desk.process options draft old).2.vetoed =
      (desk.sync options draft old).2.vetoed :=
    List.filterMap_append.trans (List.append_nil _)
  rw [hClosed]
  exact sync_vetoed desk draft old

theorem close_skipped {phase : Phase} : (desk.close draft phase).skipped =
    desk.skipped ++ if phase = .skipped then [draft] else [] := by
  show (desk.journal ++ [Event.ended draft phase desk.world.remote]).filterMap _ = _
  rw [List.filterMap_append]
  cases phase <;> rfl

/-- A processed draft ends as skipped exactly when the hook has dropped it. -/
theorem process_skipped (desk : Desk F σ) (draft : F.Draft) (old : Option F.Resource) :
    (desk.process options draft old).2.skipped =
      desk.skipped ++ if (desk.process options draft old).1 = .skipped then [draft] else [] := by
  rw [← sync_skipped desk draft old]
  exact close_skipped

/-! ## Vetoes and what is remembered of them -/

/-- The vetoes in the journal are those of the hook: it gives each of them, and if what is
remembered counts them, it has counted as many since certain notes. -/
structure Noted (engine : Engine F σ) (notes : σ) (desk : Desk F σ) : Prop where
  given : ∀ draft ∈ desk.vetoed, engine.options.Vetoes draft
  counted : ∀ count, engine.Remembers count →
    count desk.world.notes = count notes + desk.vetoes

theorem Noted.of_same (hNoted : Noted engine notes before) (hVetoed : after.vetoed = before.vetoed)
    (hNotes : after.world.notes = before.world.notes) : Noted engine notes after := by
  refine ⟨hVetoed ▸ hNoted.given, fun count hCounts => ?_⟩
  rw [hNotes, hNoted.counted count hCounts, vetoes, vetoes, hVetoed]

theorem Noted.beside (hNoted : Noted engine notes before)
    (hJournal : Appends Event.isBeside before.journal after.journal)
    (hNotes : after.world.notes = before.world.notes) : Noted engine notes after :=
  hNoted.of_same (vetoed_of_beside hJournal) hNotes

/-- A veto is one more in the journal, and one more to remember. -/
theorem askBeforeCreate_noted (hNoted : Noted engine notes desk) :
    Noted engine notes (desk.askBeforeCreate engine.options draft).2 := by
  have hVetoed := @askBeforeCreate_vetoed F σ engine.options draft desk
  constructor
  · intro other hOther
    rw [hVetoed] at hOther
    rcases List.mem_append.mp hOther with hEarlier | hNew
    · exact hNoted.given other hEarlier
    · split at hNew
      · rename_i hNone
        cases List.mem_singleton.mp hNew
        obtain ⟨hook, hHook, hDropped⟩ := askBeforeCreate_eq_none_iff.mp hNone
        exact ⟨hook, desk.world, hHook, hDropped⟩
      · exact absurd hNew List.not_mem_nil
  · intro count hCounts
    have hNotes : count (desk.askBeforeCreate engine.options draft).2.world.notes =
        count desk.world.notes +
          if (desk.askBeforeCreate engine.options draft).1 = none then 1 else 0 := by
      unfold askBeforeCreate
      cases hHook : engine.options.beforeCreate with
      | none => simp
      | some hook => exact hCounts.beforeCreate hook hHook desk.world draft
    rw [hNotes, hNoted.counted count hCounts, vetoes, vetoes, hVetoed, List.length_append]
    split <;> rfl

theorem askBeforeUpdate_noted {actions : List F.Action} (hNoted : Noted engine notes desk) :
    Noted engine notes (desk.askBeforeUpdate engine.options draft old actions).2 := by
  unfold askBeforeUpdate
  cases hHook : engine.options.beforeUpdate with
  | none => exact hNoted
  | some hook =>
      have hVetoed : ((desk.enter (.updating draft old actions)).withWorld
          (hook desk.world draft old actions).2).vetoed = desk.vetoed :=
        vetoed_of_beside (.single rfl)
      refine ⟨fun other hOther => hNoted.given other (hVetoed ▸ hOther), fun count hCounts => ?_⟩
      show count (hook desk.world draft old actions).2.notes = _
      rw [hCounts.beforeUpdate hook hHook, hNoted.counted count hCounts, vetoes, vetoes, hVetoed]

/-- Whatever is done for a draft, its veto is noted. -/
theorem noted_lasting : Lasting engine.options draft (Noted engine notes) where
  report hReport hNoted := hNoted.beside (.single (Event.isBeside_of_isReport hReport)) rfl
  beforeCreate := askBeforeCreate_noted
  beforeUpdate := askBeforeUpdate_noted
  creation _ _ hNoted := hNoted.beside (.single rfl) rfl
  change _ _ _ hNoted := hNoted.beside (.single rfl) rfl
  fetch _ hNoted := hNoted.of_same rfl rfl

/-! ## Vetoes and skipped drafts -/

/-- All vetoes are noted, and the drafts that ended as skipped are those that were dropped. -/
structure Vetted (engine : Engine F σ) (notes : σ) (desk : Desk F σ) : Prop
    extends Noted engine notes desk where
  balanced : desk.skipped = desk.vetoed

theorem Vetted.beside (hVetted : Vetted engine notes before)
    (hJournal : Appends Event.isBeside before.journal after.journal)
    (hNotes : after.world.notes = before.world.notes) : Vetted engine notes after where
  toNoted := hVetted.toNoted.beside hJournal hNotes
  balanced := by
    rw [skipped_of_beside hJournal, vetoed_of_beside hJournal]
    exact hVetted.balanced

/-- Idle steps that change at most the shelf drop no draft and skip none. -/
theorem Vetted.idle (hVetted : Vetted engine notes before) (hIdle : Idle before after)
    {shelf : Shelf} (hWorld : after.world = before.world.withShelf shelf) :
    Vetted engine notes after :=
  hVetted.beside (hIdle.journal.mono fun _ => Event.isBeside_of_isIdle) (by rw [hWorld]; rfl)

theorem failMany_vetted {message : String} {cause : Cause} {count : Nat}
    (hVetted : Vetted engine notes desk) :
    Vetted engine notes (desk.failMany engine.options message cause count) :=
  hVetted.beside (enterIf_journal rfl) (congrArg World.notes failMany_world)

/-- A processed draft is skipped and dropped, or neither. -/
theorem process_vetted {found : Option F.Resource} (hVetted : Vetted engine notes desk) :
    Vetted engine notes (desk.process engine.options draft found).2 where
  toNoted := by
    have hSynced : Noted engine notes (desk.sync engine.options draft found).2 :=
      noted_lasting.sync found hVetted.toNoted
    exact hSynced.of_same (List.filterMap_append.trans (List.append_nil _)) rfl
  balanced := by rw [process_skipped, process_vetoed, hVetted.balanced]

theorem processAll_vetted {found : KeyMap F.Resource} {drafts : List F.Draft}
    (hVetted : Vetted engine notes desk) :
    Vetted engine notes (processAll engine.options found desk drafts).2 := by
  induction drafts generalizing desk with
  | nil => exact hVetted
  | cons draft rest ih => exact ih (process_vetted hVetted)

theorem syncBatch_vetted {drafts : List F.Draft} (hVetted : Vetted engine notes desk) :
    Vetted engine notes (desk.syncBatch engine.options drafts).2 := by
  have hLooked : Vetted engine notes (desk.lookup (F.keysOf drafts)).2 := hVetted.beside .refl rfl
  unfold syncBatch
  split
  · exact hVetted
  · simp only
    split
    · exact processAll_vetted hLooked
    · exact failMany_vetted hLooked

end Desk

namespace Engine

open Desk (Vetted)

variable {engine : Engine F σ} {notes : σ}

/-- The resolver drops no draft, and what it remembers counts none. -/
theorem ask_vetted {resolver : Resolver F σ} {desk : Desk F σ} {keys : KeySet}
    (hResolver : engine.resolver = some resolver) (hVetted : Vetted engine notes desk) :
    Vetted engine notes
      ((desk.enter (.resolving keys)).withWorld (resolver desk.world keys).2) := by
  have hEntered : Vetted engine notes (desk.enter (.resolving keys)) :=
    hVetted.beside (.single rfl) rfl
  refine ⟨⟨hEntered.given, fun count hCounts => ?_⟩, hEntered.balanced⟩
  show count (resolver desk.world keys).2.notes = _
  rw [hCounts.resolver resolver hResolver]
  exact hEntered.counted count hCounts

/-- Whatever an engine does, the skipped drafts are those that the hook dropped. -/
theorem vetted_lasting : engine.Lasting fun run => Vetted engine notes run.desk where
  fail := Desk.failMany_vetted
  ask := ask_vetted
  park := fun hVetted => hVetted.idle (park_idle engine _ _ _) park_world
  sync := Desk.syncBatch_vetted
  settle := fun hVetted => hVetted.idle (settle_idle engine _ _) settle_world
  fetch := fun hVetted => hVetted.beside .refl rfl
  sort := fun hVetted => hVetted.idle sortRecords_idle sortRecords_world
  forget := fun hVetted => hVetted
  abandon := fun hVetted =>
    hVetted.beside (Desk.enterIf_journal rfl) (congrArg World.notes abandon_world)

/-- In every run the drafts that ended as skipped are those that the hook before creation dropped,
and what is remembered of its vetoes has counted them all. -/
theorem follow_vetted (engine : Engine F σ) (world : World F σ) (errands : List (Errand F)) :
    Vetted engine world.notes (engine.follow (Run.start world) errands).desk := by
  refine vetted_lasting.follow (fun run errand hVetted => ?_) ?_
  · exact hVetted.beside .refl (by cases errand <;> rfl)
  · exact ⟨⟨fun _ hDraft => absurd hDraft List.not_mem_nil, fun _ _ => rfl⟩, rfl⟩

end Engine

end CatalogSync
