import CatalogSync.Catalog.LocalizedText

/-!
# Categories

A category is a node of the catalog tree and refers to its parent by key. A category can move under
another parent but never becomes a root again, and an order hint can be replaced but not cleared.
-/

namespace CatalogSync

/-- A category as the remote holds it. -/
structure Category where
  /-- The identifier given by the remote. -/
  id : String
  /-- The key of the category. -/
  key : String
  /-- The version, advanced by every update. -/
  version : UInt64
  /-- The name. -/
  name : LocalizedText
  /-- The part of an address that names the category. -/
  slug : LocalizedText
  /-- The description. -/
  description : Option LocalizedText
  /-- The key of the parent category. -/
  parent : Option String
  /-- The place among the siblings. -/
  orderHint : Option String
  /-- The identifier in another system. -/
  externalId : Option String
deriving DecidableEq, Repr

namespace Category

/-- The desired state of a category. -/
structure Draft where
  /-- The key of the category. -/
  key : Option String
  /-- The name. -/
  name : LocalizedText
  /-- The part of an address that names the category. -/
  slug : LocalizedText
  /-- The description; an absent one is cleared. -/
  description : Option LocalizedText
  /-- The key of the parent; an absent one keeps the current parent. -/
  parent : Option String
  /-- The place among the siblings; an absent one keeps the current place. -/
  orderHint : Option String
  /-- The identifier in another system; an absent one is cleared. -/
  externalId : Option String
deriving DecidableEq, Repr

/-- A single change of a category. -/
inductive Action where
  /-- Replaces the name. -/
  | changeName (name : LocalizedText)
  /-- Replaces the slug. -/
  | changeSlug (slug : LocalizedText)
  /-- Sets or clears the description. -/
  | setDescription (description : Option LocalizedText)
  /-- Moves the category under another parent. -/
  | changeParent (parent : String)
  /-- Replaces the order hint. -/
  | changeOrderHint (orderHint : String)
  /-- Sets or clears the external identifier. -/
  | setExternalId (externalId : Option String)
deriving DecidableEq, Repr

namespace Draft

/-- A draft with its mandatory members only. -/
def basic (key : String) (name slug : LocalizedText) : Draft :=
  { key := some key, name, slug, description := none, parent := none, orderHint := none,
    externalId := none }

/-- The draft with a parent. -/
def withParent (draft : Draft) (parent : String) : Draft := { draft with parent := some parent }

/-- A category refers to its parent. -/
def references (draft : Draft) : KeySet := KeySet.ofList draft.parent.toList

end Draft

/-- The category that the remote creates from a draft. -/
def ofDraft (draft : Draft) (id : String) : Category where
  id
  key := draft.key.getD ""
  version := 1
  name := draft.name
  slug := draft.slug
  description := draft.description
  parent := draft.parent
  orderHint := draft.orderHint
  externalId := draft.externalId

/-- The category after one action, in the same version. -/
def perform (category : Category) : Action → Category
  | .changeName name => { category with name }
  | .changeSlug slug => { category with slug }
  | .setDescription description => { category with description }
  | .changeParent parent => { category with parent := some parent }
  | .changeOrderHint orderHint => { category with orderHint := some orderHint }
  | .setExternalId externalId => { category with externalId }

/-- The category after a list of actions, in its next version. -/
def apply (category : Category) (actions : List Action) : Category :=
  let changed := actions.foldl perform category
  { changed with version := changed.version + 1 }

end Category

end CatalogSync
