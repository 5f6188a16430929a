import CatalogSync.Catalog.ProductType.Basic
import CatalogSync.Field
import CatalogSync.KeyedList.Reconcile

/-!
# Differences of product types

The attributes are reconciled by name, and the enum values of a shared attribute by key. Enum values
are removed in one batch, relabelled and appended one by one, and reordered as a whole. An attribute
keeps the kind of its type for good.
-/

namespace CatalogSync.ProductType

open KeyedList (Policy)

/-- The policy of the enum values with plain labels of one attribute. -/
def plainValues (attributeName : String) : Policy (EnumValue String) Action where
  collection := s!"enum values of attribute '{attributeName}'"
  key := EnumValue.key
  remove removed := [.removeEnumValues attributeName (removed.map (·.key))]
  change old new := .ok
    (Field.change old.label new.label (.changePlainEnumValueLabel attributeName new)).toList
  add value _ := .addPlainEnumValue attributeName value
  reorder values := some (.changePlainEnumValueOrder attributeName values)

/-- The policy of the enum values with localized labels of one attribute. -/
def localizedValues (attributeName : String) : Policy (EnumValue LocalizedText) Action where
  collection := s!"localized enum values of attribute '{attributeName}'"
  key := EnumValue.key
  remove removed := [.removeEnumValues attributeName (removed.map (·.key))]
  change old new := .ok
    (Field.change old.label new.label (.changeLocalizedEnumValueLabel attributeName new)).toList
  add value _ := .addLocalizedEnumValue attributeName value
  reorder values := some (.changeLocalizedEnumValueOrder attributeName values)

/-- The actions that turn the type of an attribute into another of the same kind. -/
def diffType (attributeName : String) : ValueType → ValueType → Except Refusal (List Action)
  | .enum old, .enum new => (plainValues attributeName).reconcile old (some new)
  | .localizedEnum old, .localizedEnum new =>
      (localizedValues attributeName).reconcile old (some new)
  | old, new =>
      if old.kind = new.kind then .ok []
      else .error (.unsupportedChange s!"attribute '{attributeName}'"
        s!"type changed from {old.kind} to {new.kind}")

/-- The actions that turn an attribute into another of the same name. -/
def diffAttribute (old new : AttributeDefinition) : Except Refusal (List Action) := do
  let relabelled :=
    (Field.change old.label new.label (.changeAttributeDefinitionLabel new.name new.label)).toList
  return relabelled ++ (← diffType new.name old.attributeType new.attributeType)

/-- The policy of the attributes of a product type. -/
def attributePolicy : Policy AttributeDefinition Action where
  collection := "attribute definitions"
  key := AttributeDefinition.name
  remove removed := removed.map fun definition => .removeAttributeDefinition definition.name
  change := diffAttribute
  add definition _ := .addAttributeDefinition definition
  reorder attributes := some (.changeAttributeOrder attributes)

/-- The actions that bring a product type into the state of a draft. -/
def diff (old : ProductType) (new : Draft) : Except Refusal (List Action) := do
  let renamed := (Field.change old.name new.name (.changeName new.name)).toList
  let described :=
    (Field.change old.description new.description (.changeDescription new.description)).toList
  return renamed ++ described ++ (← attributePolicy.reconcile old.attributes new.attributes)

end CatalogSync.ProductType
