import CatalogSync.Catalog.Families
import CatalogSync.Staging.Area

/-!
# Encoding loses nothing

Whatever a family writes down is read back as it was written: drafts, resources and actions, with
any contents, and the records of parked drafts with any set of missing keys. The one exception are
amounts that are no finite numbers, which a document cannot hold.

The rules of the single codecs stand beside them. Here they are put together for all families, and
carried through a staging area, so that what is released is what was parked.

## Main results

* `Family.Expressible.encoding_lossless`: drafts, resources, actions and parked records are read
  back as they were written, and a saved record is fetched as it was saved.
-/

namespace CatalogSync

/-! ## Families -/

namespace Family

/-- The families, each with the drafts, the resources and the actions that a document can hold:
amounts have to be finite numbers. -/
inductive Expressible :
    (F : Family) → (F.Draft → Prop) → (F.Resource → Prop) → (F.Action → Prop) → Prop
  | category : Expressible Family.category (fun _ => True) (fun _ => True) (fun _ => True)
  | productType : Expressible Family.productType (fun _ => True) (fun _ => True) (fun _ => True)
  | customType : Expressible Family.customType (fun _ => True) (fun _ => True) (fun _ => True)
  | taxCategory : Expressible Family.taxCategory TaxCategory.Draft.IsFinite TaxCategory.IsFinite
      TaxCategory.Action.IsFinite
  | item : Expressible Family.item (fun _ => True) (fun _ => True) (fun _ => True)

namespace Expressible

variable {F : Family} {SoundDraft : F.Draft → Prop} {SoundResource : F.Resource → Prop}
  {SoundAction : F.Action → Prop}

/-- Drafts are read back as they were written. -/
theorem restores_draft (hFamily : F.Expressible SoundDraft SoundResource SoundAction)
    {draft : F.Draft} (hDraft : SoundDraft draft) : F.drafts.Restores draft := by
  cases hFamily with
  | category => exact Category.Draft.faithful_codec draft
  | productType => exact ProductType.Draft.faithful_codec draft
  | customType => exact CustomType.Draft.faithful_codec draft
  | taxCategory => exact TaxCategory.Draft.restores_codec hDraft
  | item => exact Item.Draft.faithful_codec draft

/-- Resources are read back as they were written. -/
theorem restores_resource (hFamily : F.Expressible SoundDraft SoundResource SoundAction)
    {resource : F.Resource} (hResource : SoundResource resource) : F.resources.Restores resource := by
  cases hFamily with
  | category => exact Category.faithful_codec resource
  | productType => exact ProductType.faithful_codec resource
  | customType => exact CustomType.faithful_codec resource
  | taxCategory => exact TaxCategory.restores_codec hResource
  | item => exact Item.faithful_codec resource

/-- Actions are read back as they were written. -/
theorem restores_action (hFamily : F.Expressible SoundDraft SoundResource SoundAction)
    {action : F.Action} (hAction : SoundAction action) : F.actions.Restores action := by
  cases hFamily with
  | category => exact Category.Action.faithful_codec action
  | productType => exact ProductType.Action.faithful_codec action
  | customType => exact CustomType.Action.faithful_codec action
  | taxCategory => exact TaxCategory.Action.restores_codec hAction
  | item => exact Item.Action.faithful_codec action

end Expressible

end Family

/-! ## Staging areas -/

/-- A record that is read back as it was written is fetched from the area that it was saved in. -/
theorem Area.fetch_save_of_calm {F : Family} {area : Area F} {shelf : Shelf} {record : Parked F}
    (hCalm : shelf.faults = []) (hRestores : Parked.codec.Restores record) :
    (area.fetch (area.save shelf record).shelf (KeySet.singleton record.key)).1 = .ok [record] := by
  have hDecode : Parked.codec.decode (Parked.codec.encode record) = some record := hRestores
  have hSome : ¬ (KeySet.singleton record.key).isEmpty = true := by
    rw [KeySet.isEmpty_iff]
    exact fun hNone => hNone record.key (KeySet.mem_singleton.mpr rfl)
  have hStored : (area.save shelf record).shelf.get? area.container record.key =
      some (Parked.codec.encode record) := Area.get?_save_of_calm hCalm
  have hFaults : (area.save shelf record).shelf.faults = [] := Area.save_faults_of_calm hCalm
  have hKeys : (KeySet.singleton record.key).toList = [record.key] := rfl
  simp [fetch, if_neg hSome, Shelf.fetch, hFaults, hKeys, hStored, hDecode]

/-! ## The theorem -/

/-- Encoding loses nothing. The drafts, the resources and the actions of a family are read back as
they were written, and so is the record of a parked draft, whatever it misses. So a record that was
saved in a staging area is fetched from it as it was saved, and the draft that is released is the
draft that was parked. -/
theorem Family.Expressible.encoding_lossless {F : Family} {SoundDraft : F.Draft → Prop}
    {SoundResource : F.Resource → Prop} {SoundAction : F.Action → Prop}
    (hFamily : F.Expressible SoundDraft SoundResource SoundAction) :
    (∀ draft, SoundDraft draft → F.drafts.decode (F.drafts.encode draft) = some draft) ∧
      (∀ resource, SoundResource resource →
        F.resources.decode (F.resources.encode resource) = some resource) ∧
      (∀ action, SoundAction action → F.actions.decode (F.actions.encode action) = some action) ∧
      ∀ record : Parked F, SoundDraft record.draft →
        Parked.codec.decode (Parked.codec.encode record) = some record ∧
          ∀ (area : Area F) (shelf : Shelf), shelf.faults = [] →
            (area.fetch (area.save shelf record).shelf (KeySet.singleton record.key)).1 =
              .ok [record] := by
  refine ⟨fun draft hDraft => hFamily.restores_draft hDraft,
    fun resource hResource => hFamily.restores_resource hResource,
    fun action hAction => hFamily.restores_action hAction, fun record hDraft => ?_⟩
  have hRecord : Parked.codec.decode (Parked.codec.encode record) = some record :=
    Parked.decode_encode_of_draft (hFamily.restores_draft hDraft)
  exact ⟨hRecord, fun area shelf hCalm => Area.fetch_save_of_calm hCalm hRecord⟩

/-- A tax category whose one rate has a finite amount and no state, and the action that adds the
rate, are read back. -/
theorem Family.Expressible.encoding_lossless_standard :
    let rate := TaxRate.basic "standard" "Standard" ⟨0x3FC851EB851EB852⟩ "DE"
    let draft : TaxCategory.Draft :=
      { key := some "food", name := "Food", description := none, rates := some [rate] }
    TaxCategory.Draft.codec.decode (TaxCategory.Draft.codec.encode draft) = some draft ∧
      TaxCategory.Action.codec.decode (TaxCategory.Action.codec.encode (.addTaxRate rate)) =
        some (.addTaxRate rate) := by
  intro rate draft
  have hRate : rate.IsFinite := by
    show _ = true
    decide
  have hDraft : draft.IsFinite := by
    intro rates hRates other hOther
    cases hRates
    rw [List.mem_singleton.mp hOther]
    exact hRate
  obtain ⟨hDrafts, -, hActions, -⟩ :=
    Family.Expressible.encoding_lossless Family.Expressible.taxCategory
  exact ⟨hDrafts draft hDraft, hActions (.addTaxRate rate) hRate⟩

end CatalogSync
