import CatalogSync.Proofs.Converging

/-!
# Updates advance the version

No action touches what the remote assigns to a resource. Whatever actions are applied, also ones
that were built for another version, the resource keeps its identifier and its key, and its version
goes up by one.

## Main results

* `Family.OfCatalog.advances`: the families of the catalog advance.
* `Family.lawful_of_named`: so do all families that a request can name, and what they create has the
  key of its draft.
-/

namespace CatalogSync

/-- What no step changes is the same after any number of steps. -/
theorem foldl_eq_of_step {S α β : Type} {step : S → α → S} (read : S → β)
    (hStep : ∀ state action, read (step state action) = read state) (actions : List α) (state : S) :
    read (actions.foldl step state) = read state := by
  induction actions generalizing state with
  | nil => rfl
  | cons action rest ih => exact (ih _).trans (hStep state action)

namespace Family

/-- Whatever is applied to a resource, its version goes up and what else the remote assigned stays.
-/
structure Advances (F : Family) : Prop where
  id_materialize : ∀ draft id, F.id (F.materialize draft id) = id
  id_apply : ∀ resource actions, F.id (F.apply resource actions) = F.id resource
  key_apply : ∀ resource actions, F.key (F.apply resource actions) = F.key resource
  version_apply : ∀ resource actions, F.version (F.apply resource actions) = F.version resource + 1

theorem category_advances : Advances Family.category where
  id_materialize _ _ := rfl
  id_apply resource actions :=
    foldl_eq_of_step Category.id (fun _ action => by cases action <;> rfl) actions resource
  key_apply resource actions :=
    foldl_eq_of_step Category.key (fun _ action => by cases action <;> rfl) actions resource
  version_apply resource actions := congrArg (· + 1)
    (foldl_eq_of_step Category.version (fun _ action => by cases action <;> rfl) actions resource)

theorem productType_advances : Advances Family.productType where
  id_materialize _ _ := rfl
  id_apply resource actions :=
    foldl_eq_of_step ProductType.id (fun _ action => by cases action <;> rfl) actions resource
  key_apply resource actions :=
    foldl_eq_of_step ProductType.key (fun _ action => by cases action <;> rfl) actions resource
  version_apply resource actions := congrArg (· + 1)
    (foldl_eq_of_step ProductType.version (fun _ action => by cases action <;> rfl) actions
      resource)

theorem customType_advances : Advances Family.customType where
  id_materialize _ _ := rfl
  id_apply resource actions :=
    foldl_eq_of_step CustomType.id (fun _ action => by cases action <;> rfl) actions resource
  key_apply resource actions :=
    foldl_eq_of_step CustomType.key (fun _ action => by cases action <;> rfl) actions resource
  version_apply resource actions := congrArg (· + 1)
    (foldl_eq_of_step CustomType.version (fun _ action => by cases action <;> rfl) actions resource)

theorem taxCategory_advances : Advances Family.taxCategory where
  id_materialize _ _ := rfl
  id_apply resource actions :=
    foldl_eq_of_step TaxCategory.id (fun _ action => by cases action <;> rfl) actions resource
  key_apply resource actions :=
    foldl_eq_of_step TaxCategory.key (fun _ action => by cases action <;> rfl) actions resource
  version_apply resource actions := congrArg (· + 1)
    (foldl_eq_of_step TaxCategory.version (fun _ action => by cases action <;> rfl) actions
      resource)

theorem item_advances : Advances Family.item where
  id_materialize _ _ := rfl
  id_apply resource actions :=
    foldl_eq_of_step Item.id (fun _ action => by cases action; rfl) actions resource
  key_apply resource actions :=
    foldl_eq_of_step Item.key (fun _ action => by cases action; rfl) actions resource
  version_apply resource actions := congrArg (· + 1)
    (foldl_eq_of_step Item.version (fun _ action => by cases action; rfl) actions resource)

/-- The families of the catalog advance. -/
theorem OfCatalog.advances {F : Family} {Sound : F.Draft → Prop} (hFamily : F.OfCatalog Sound) :
    F.Advances := by
  cases hFamily with
  | category => exact category_advances
  | productType => exact productType_advances
  | customType => exact customType_advances
  | taxCategory => exact taxCategory_advances

/-- Moreover a resource is created under the key of its draft. -/
structure Lawful (F : Family) : Prop extends F.Advances where
  key_materialize : ∀ draft id, F.key (F.materialize draft id) = F.keyOf draft

/-- Every family that a request can name is lawful. -/
theorem lawful_of_named {name : String} {F : Family} (hFamily : named? name = some F) :
    F.Lawful := by
  unfold named? at hFamily
  split at hFamily <;> cases hFamily
  · exact ⟨category_advances, fun _ _ => rfl⟩
  · exact ⟨productType_advances, fun _ _ => rfl⟩
  · exact ⟨customType_advances, fun _ _ => rfl⟩
  · exact ⟨taxCategory_advances, fun _ _ => rfl⟩
  · exact ⟨item_advances, fun _ _ => rfl⟩

end Family

end CatalogSync
