import CatalogSync.Catalog.Category.Codec
import CatalogSync.Catalog.Category.Diff
import CatalogSync.Catalog.CustomType.Codec
import CatalogSync.Catalog.CustomType.Diff
import CatalogSync.Catalog.Item
import CatalogSync.Catalog.ProductType.Codec
import CatalogSync.Catalog.ProductType.Diff
import CatalogSync.Catalog.TaxCategory.Codec
import CatalogSync.Catalog.TaxCategory.Diff
import CatalogSync.Family

/-!
# The families of the catalog

Only categories and items refer to other resources.
-/

namespace CatalogSync.Family

/-- Categories, which refer to their parents. -/
abbrev category : Family where
  Draft := Category.Draft
  Resource := Category
  Action := Category.Action
  name := "category"
  plural := "categories"
  draftKey := Category.Draft.key
  references := Category.Draft.references
  id := Category.id
  key := Category.key
  version := Category.version
  materialize := Category.ofDraft
  diff old new := .ok (Category.diff old new)
  apply := Category.apply
  drafts := Category.Draft.codec
  resources := Category.codec
  actions := Category.Action.codec
  restores := fun draft _ => Category.Draft.faithful_codec draft

/-- Product types. -/
abbrev productType : Family where
  Draft := ProductType.Draft
  Resource := ProductType
  Action := ProductType.Action
  name := "product type"
  plural := "product types"
  draftKey := ProductType.Draft.key
  references _ := ∅
  id := ProductType.id
  key := ProductType.key
  version := ProductType.version
  materialize := ProductType.ofDraft
  diff := ProductType.diff
  apply := ProductType.apply
  drafts := ProductType.Draft.codec
  resources := ProductType.codec
  actions := ProductType.Action.codec
  restores := fun _ hSome => absurd rfl hSome

/-- Custom types. -/
abbrev customType : Family where
  Draft := CustomType.Draft
  Resource := CustomType
  Action := CustomType.Action
  name := "type"
  plural := "types"
  draftKey := CustomType.Draft.key
  references _ := ∅
  id := CustomType.id
  key := CustomType.key
  version := CustomType.version
  materialize := CustomType.ofDraft
  diff := CustomType.diff
  apply := CustomType.apply
  drafts := CustomType.Draft.codec
  resources := CustomType.codec
  actions := CustomType.Action.codec
  restores := fun _ hSome => absurd rfl hSome

/-- Tax categories. -/
abbrev taxCategory : Family where
  Draft := TaxCategory.Draft
  Resource := TaxCategory
  Action := TaxCategory.Action
  name := "tax category"
  plural := "tax categories"
  draftKey := TaxCategory.Draft.key
  references _ := ∅
  id := TaxCategory.id
  key := TaxCategory.key
  version := TaxCategory.version
  materialize := TaxCategory.ofDraft
  diff := TaxCategory.diff
  apply := TaxCategory.apply
  drafts := TaxCategory.Draft.codec
  resources := TaxCategory.codec
  actions := TaxCategory.Action.codec
  restores := fun _ hSome => absurd rfl hSome

/-- Items, which refer to any number of other resources. -/
abbrev item : Family where
  Draft := Item.Draft
  Resource := Item
  Action := Item.Action
  name := "item"
  plural := "items"
  draftKey := Item.Draft.key
  references := Item.Draft.requires
  id := Item.id
  key := Item.key
  version := Item.version
  materialize := Item.ofDraft
  diff := Item.diff
  apply := Item.apply
  drafts := Item.Draft.codec
  resources := Item.codec
  actions := Item.Action.codec
  restores := fun draft _ => Item.Draft.faithful_codec draft

/-- The family that a request names. -/
def named? : String → Option Family
  | "category" => some category
  | "product_type" => some productType
  | "type" => some customType
  | "tax_category" => some taxCategory
  | "item" => some item
  | _ => none

end CatalogSync.Family
