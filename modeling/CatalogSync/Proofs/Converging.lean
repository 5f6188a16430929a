import CatalogSync.Catalog.Families
import CatalogSync.Proofs.Categories
import CatalogSync.Proofs.CustomTypes
import CatalogSync.Proofs.ProductTypes
import CatalogSync.Proofs.TaxCategories

/-!
# Families that converge

What a remote makes of a draft, by creating or by updating a resource, asks for nothing when it is
compared with the draft again. Each family of the catalog has its own reason: members that are taken
over or left alone, exact lists, enum values that only grow, rates without an order. An engine needs
no more than the two laws that they have in common.

## Main results

* `Family.OfCatalog.converges`: the families of the catalog converge on sound drafts.
-/

namespace CatalogSync.Family

/-- What creating and updating leave asks for nothing more, and keeps its key. -/
structure Converges (F : Family) (Sound : F.Draft → Prop) : Prop where
  key_materialize : ∀ draft id, F.key (F.materialize draft id) = F.keyOf draft
  diff_materialize : ∀ draft id, Sound draft → F.diff (F.materialize draft id) draft = .ok []
  key_apply : ∀ {old draft actions}, F.diff old draft = .ok actions →
    F.key (F.apply old actions) = F.key old
  diff_apply : ∀ {old draft actions}, Sound draft → F.diff old draft = .ok actions →
    F.diff (F.apply old actions) draft = .ok []

/-- The families of the catalog, each with its sound drafts: none of their lists repeats a key, and
their amounts are numbers. -/
inductive OfCatalog : (F : Family) → (F.Draft → Prop) → Prop
  | category : OfCatalog Family.category fun _ => True
  | productType : OfCatalog Family.productType ProductType.Draft.WellKeyed
  | customType : OfCatalog Family.customType CustomType.Draft.WellKeyed
  | taxCategory : OfCatalog Family.taxCategory TaxCategory.Draft.WellFormed

theorem category_converges : Converges Family.category fun _ => True where
  key_materialize draft id := rfl
  diff_materialize draft id _ :=
    congrArg Except.ok (Category.diff_eq_nil (Category.matches_ofDraft draft id))
  key_apply {old draft actions} hDiff := by
    cases hDiff
    show (Category.apply old _).key = old.key
    rw [Category.apply_eq]
  diff_apply {old draft actions} _ hDiff := by
    cases hDiff
    exact congrArg Except.ok (Category.diff_eq_nil (Category.matches_apply old draft))

theorem productType_converges : Converges Family.productType ProductType.Draft.WellKeyed where
  key_materialize draft id := rfl
  diff_materialize draft id hSound := ProductType.diff_eq_nil ⟨rfl, rfl, rfl⟩ hSound
  key_apply {old draft actions} hDiff := by
    show (ProductType.apply old actions).key = old.key
    rw [ProductType.apply_eq hDiff]
  diff_apply {old draft actions} hSound hDiff := by
    have hMatches : (ProductType.apply old actions).Matches draft := by
      rw [ProductType.apply_eq hDiff]
      exact ⟨rfl, rfl, rfl⟩
    exact ProductType.diff_eq_nil hMatches hSound

theorem customType_converges : Converges Family.customType CustomType.Draft.WellKeyed where
  key_materialize draft id := rfl
  diff_materialize draft id hSound :=
    CustomType.diff_eq_nil (CustomType.settled_ofDraft draft id) hSound
  key_apply {old draft actions} hDiff := by
    show (CustomType.apply old actions).key = old.key
    rw [CustomType.apply_eq hDiff]
  diff_apply {old draft actions} hSound hDiff :=
    CustomType.diff_eq_nil (CustomType.settled_apply hDiff) hSound

theorem taxCategory_converges : Converges Family.taxCategory TaxCategory.Draft.WellFormed where
  key_materialize draft id := rfl
  diff_materialize draft id hSound :=
    TaxCategory.diff_eq_nil (TaxCategory.agrees_ofDraft hSound id) hSound
  key_apply {old draft actions} hDiff := by
    show (TaxCategory.apply old actions).key = old.key
    rw [TaxCategory.apply_eq hDiff]
  diff_apply {old draft actions} hSound hDiff :=
    TaxCategory.diff_eq_nil (TaxCategory.agrees_apply hSound hDiff) hSound

/-- The families of the catalog converge on sound drafts. -/
theorem OfCatalog.converges {F : Family} {Sound : F.Draft → Prop} (hFamily : F.OfCatalog Sound) :
    F.Converges Sound := by
  cases hFamily with
  | category => exact category_converges
  | productType => exact productType_converges
  | customType => exact customType_converges
  | taxCategory => exact taxCategory_converges

end CatalogSync.Family
