import CatalogSync.Catalog.Category.Basic
import CatalogSync.Field

/-!
# Differences of categories

Every member of a category is compared on its own, so a category never refuses a draft.
-/

namespace CatalogSync.Category

/-- The actions that bring a category into the state of a draft. -/
def diff (old : Category) (new : Draft) : List Action :=
  (Field.change old.name new.name (.changeName new.name)).toList
    ++ (Field.change old.slug new.slug (.changeSlug new.slug)).toList
    ++ (Field.setOrClear old.description new.description (.setDescription <| some ·)
      (.setDescription none)).toList
    ++ (Field.setIfGiven old.parent new.parent .changeParent).toList
    ++ (Field.setIfGiven old.orderHint new.orderHint .changeOrderHint).toList
    ++ (Field.setOrClear old.externalId new.externalId (.setExternalId <| some ·)
      (.setExternalId none)).toList

end CatalogSync.Category
