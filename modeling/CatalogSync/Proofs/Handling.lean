import CatalogSync.Sync.Batch

/-!
# What lasts while a draft is processed

Six things are done to a desk on behalf of one draft: something is reported, one of the two hooks is
asked, a creation or an update is submitted, and the resource is fetched again. A property that each
of them keeps is kept until the draft ends, whichever way it takes, and one that also stands its
ending is kept by all the drafts of a batch. Four of the six are all that an update consists of.

## Main results

* `Desk.Updating.update`: what the four keep is kept by an update with its second attempt.
* `Desk.Lasting.sync`: what lasts is kept until the draft ends.
* `Desk.Lasting.processAll`: it is kept by a list of drafts.
-/

namespace CatalogSync

variable {F : Family} {σ : Type}

/-- Whether an event tells somebody what became of a draft. -/
def Event.isReport : Event F → Bool
  | .failure _ | .created _ | .updated .. => true
  | _ => false

namespace Desk

/-- A property of desks that everything keeps that an update for a draft consists of. The desk
`asked` is the one at which the hook made up its mind about what is submitted. -/
structure Updating (options : Options F σ) (draft : F.Draft) (P : Desk F σ → Prop) : Prop where
  report : ∀ {desk event}, Event.isReport event = true → P desk → P (desk.enter event)
  beforeUpdate : ∀ {desk old actions}, P desk →
    P (desk.askBeforeUpdate options draft old actions).2
  change : ∀ {desk old proposed actions} (asked : Desk F σ), F.diff old draft = .ok proposed →
    (asked.askBeforeUpdate options draft old proposed).1 = actions →
    P desk → P (desk.submitUpdate draft old actions).2
  fetch : ∀ {desk} (old : F.Resource), P desk → P (desk.refetch old).2

/-- A property of desks that everything keeps that is done for a draft before it ends. -/
structure Lasting (options : Options F σ) (draft : F.Draft) (P : Desk F σ → Prop) : Prop
    extends Updating options draft P where
  beforeCreate : ∀ {desk}, P desk → P (desk.askBeforeCreate options draft).2
  creation : ∀ {desk kept} (asked : Desk F σ), (asked.askBeforeCreate options draft).1 = some kept →
    P desk → P (desk.submitCreation draft kept).2

variable {options : Options F σ} {draft : F.Draft} {P : Desk F σ → Prop} {desk : Desk F σ}
  {old : F.Resource}

namespace Updating

theorem enterIf (hUpdating : Updating options draft P) {asked : Bool} {event : Event F}
    (hReport : event.isReport = true) (hDesk : P desk) : P (desk.enterIf asked event) := by
  unfold Desk.enterIf
  split
  · exact hUpdating.report hReport hDesk
  · exact hDesk

theorem attemptUpdate (hUpdating : Updating options draft P) (hDesk : P desk) :
    P (desk.attemptUpdate options draft old).2 := by
  simp only [Desk.attemptUpdate]
  split
  · exact hUpdating.enterIf rfl hDesk
  · exact hDesk
  · rename_i proposed _ hDiff
    have hAsked : P (desk.askBeforeUpdate options draft old proposed).2 :=
      hUpdating.beforeUpdate hDesk
    split
    · exact hAsked
    · have hCall := hUpdating.change desk hDiff rfl hAsked
      split
      · exact hUpdating.enterIf rfl hCall
      · split
        · exact hCall
        · exact hUpdating.enterIf rfl hCall

theorem retryUpdate (hUpdating : Updating options draft P) {latest : F.Resource} (hDesk : P desk) :
    P (desk.retryUpdate options draft latest).2 := by
  have hAttempt : P (desk.attemptUpdate options draft latest).2 := hUpdating.attemptUpdate hDesk
  simp only [Desk.retryUpdate]
  split
  · exact hAttempt
  · exact hUpdating.enterIf rfl hAttempt

/-- What all its parts keep is kept by an update, with its second attempt. -/
theorem update (hUpdating : Updating options draft P) (hDesk : P desk) :
    P (desk.update options draft old).2 := by
  have hAttempt : P (desk.attemptUpdate options draft old).2 := hUpdating.attemptUpdate hDesk
  simp only [Desk.update]
  split
  · exact hAttempt
  · have hFetched := hUpdating.fetch old hAttempt
    split
    · exact hUpdating.retryUpdate hFetched
    · exact hUpdating.enterIf rfl hFetched
    · exact hUpdating.enterIf rfl hFetched

end Updating

namespace Lasting

theorem create (hLasting : Lasting options draft P) (hDesk : P desk) :
    P (desk.create options draft).2 := by
  have hAsked : P (desk.askBeforeCreate options draft).2 := hLasting.beforeCreate hDesk
  simp only [Desk.create]
  split
  · exact hAsked
  · rename_i kept hKept
    have hCall := hLasting.creation desk hKept hAsked
    split
    · exact hLasting.enterIf rfl hCall
    · exact hCall
    · exact hLasting.enterIf rfl hCall

/-- What lasts is kept until the draft ends, whether it has a resource or not. -/
theorem sync (hLasting : Lasting options draft P) (found : Option F.Resource) (hDesk : P desk) :
    P (desk.sync options draft found).2 := by
  unfold Desk.sync
  split
  · exact hLasting.update hDesk
  · exact hLasting.create hDesk

/-- What lasts for each draft of a list, and is kept when one ends, is kept by the list. -/
theorem processAll {found : KeyMap F.Resource} {drafts : List F.Draft}
    (hLasting : ∀ draft ∈ drafts, Lasting options draft P)
    (hClose : ∀ draft ∈ drafts, ∀ {desk phase}, P desk → P (desk.close draft phase))
    (hDesk : P desk) : P (Desk.processAll options found desk drafts).2 := by
  induction drafts generalizing desk with
  | nil => exact hDesk
  | cons draft rest ih =>
      have hSynced := (hLasting draft (List.mem_cons_self ..)).sync
        ((F.draftKey draft).bind found.get?) hDesk
      exact ih (fun other hOther => hLasting other (List.mem_cons_of_mem _ hOther))
        (fun other hOther => hClose other (List.mem_cons_of_mem _ hOther))
        (hClose draft (List.mem_cons_self ..) hSynced)

end Lasting

end Desk

end CatalogSync
