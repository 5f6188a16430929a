import CatalogSync.Catalog.ValueType
import CatalogSync.KeyedList.Arrange

/-!
# Product types

A product type describes a kind of product by an ordered list of attributes. An action addresses an
attribute by its name and an enum value by its key; one that addresses nothing changes nothing.
-/

namespace CatalogSync

open KeyedList (arrange modifyFirst)

/-- An attribute of the products of one type. -/
structure AttributeDefinition where
  /-- The name, which tells the attribute apart within its product type. -/
  name : String
  /-- What is shown for the attribute. -/
  label : LocalizedText
  /-- The type of its values. -/
  attributeType : ValueType
deriving DecidableEq, Repr

/-- A product type as the remote holds it. -/
structure ProductType where
  /-- The identifier given by the remote. -/
  id : String
  /-- The key of the product type. -/
  key : String
  /-- The version, advanced by every update. -/
  version : UInt64
  /-- The name. -/
  name : String
  /-- The description. -/
  description : String
  /-- The attributes in the order in which they are shown. -/
  attributes : List AttributeDefinition
deriving DecidableEq, Repr

namespace ProductType

/-- The desired state of a product type. -/
structure Draft where
  /-- The key of the product type. -/
  key : Option String
  /-- The name. -/
  name : String
  /-- The description. -/
  description : String
  /-- The attributes in the order in which they are shown; an absent list removes all of them. -/
  attributes : Option (List AttributeDefinition)
deriving DecidableEq, Repr

/-- A single change of a product type. -/
inductive Action where
  /-- Replaces the name. -/
  | changeName (name : String)
  /-- Replaces the description. -/
  | changeDescription (description : String)
  /-- Removes an attribute. -/
  | removeAttributeDefinition (name : String)
  /-- Appends an attribute. -/
  | addAttributeDefinition (definition : AttributeDefinition)
  /-- Replaces the label of an attribute. -/
  | changeAttributeDefinitionLabel (attributeName : String) (label : LocalizedText)
  /-- Brings the attributes into the order of a list of attributes. -/
  | changeAttributeOrder (attributes : List AttributeDefinition)
  /-- Removes enum values of either kind. -/
  | removeEnumValues (attributeName : String) (keys : List String)
  /-- Appends an enum value with a plain label. -/
  | addPlainEnumValue (attributeName : String) (value : EnumValue String)
  /-- Replaces the plain label of an enum value. -/
  | changePlainEnumValueLabel (attributeName : String) (newValue : EnumValue String)
  /-- Brings the enum values with plain labels into the order of a list of values. -/
  | changePlainEnumValueOrder (attributeName : String) (values : List (EnumValue String))
  /-- Appends an enum value with a localized label. -/
  | addLocalizedEnumValue (attributeName : String) (value : EnumValue LocalizedText)
  /-- Replaces the localized label of an enum value. -/
  | changeLocalizedEnumValueLabel (attributeName : String) (newValue : EnumValue LocalizedText)
  /-- Brings the enum values with localized labels into the order of a list of values. -/
  | changeLocalizedEnumValueOrder (attributeName : String)
      (values : List (EnumValue LocalizedText))
deriving DecidableEq, Repr

/-- A draft without attributes. -/
def Draft.basic (key name description : String) : Draft :=
  { key := some key, name, description, attributes := some [] }

/-- The product type that the remote creates from a draft. -/
def ofDraft (draft : Draft) (id : String) : ProductType where
  id
  key := draft.key.getD ""
  version := 1
  name := draft.name
  description := draft.description
  attributes := draft.attributes.getD []

/-- Changes the attribute with a name. -/
def onAttribute (productType : ProductType) (name : String)
    (f : AttributeDefinition → AttributeDefinition) : ProductType :=
  { productType with
    attributes := modifyFirst (fun definition => definition.name == name) f productType.attributes }

/-- The values without those of the given keys. -/
def withoutKeys {Label : Type} (keys : List String) (values : List (EnumValue Label)) :
    List (EnumValue Label) :=
  values.filter fun value => !keys.contains value.key

/-- The values, those of one key with another label. -/
def relabel {Label : Type} (newValue : EnumValue Label) (values : List (EnumValue Label)) :
    List (EnumValue Label) :=
  values.map fun value =>
    if value.key = newValue.key then { value with label := newValue.label } else value

/-- The values in the order of a list of values. -/
def reorderValues {Label : Type} (order values : List (EnumValue Label)) : List (EnumValue Label) :=
  arrange EnumValue.key (order.map (·.key)) values

/-- Changes the enum values with plain labels of the attribute with a name. -/
def onPlainValues (productType : ProductType) (name : String)
    (f : List (EnumValue String) → List (EnumValue String)) : ProductType :=
  productType.onAttribute name fun definition =>
    { definition with attributeType := definition.attributeType.mapPlain f }

/-- Changes the enum values with localized labels of the attribute with a name. -/
def onLocalizedValues (productType : ProductType) (name : String)
    (f : List (EnumValue LocalizedText) → List (EnumValue LocalizedText)) : ProductType :=
  productType.onAttribute name fun definition =>
    { definition with attributeType := definition.attributeType.mapLocalized f }

/-- The product type after one action, in the same version. -/
def perform (productType : ProductType) : Action → ProductType
  | .changeName name => { productType with name }
  | .changeDescription description => { productType with description }
  | .removeAttributeDefinition name =>
      { productType with
        attributes := productType.attributes.filter fun definition => definition.name != name }
  | .addAttributeDefinition definition =>
      { productType with attributes := productType.attributes ++ [definition] }
  | .changeAttributeDefinitionLabel attributeName label =>
      productType.onAttribute attributeName fun definition => { definition with label }
  | .changeAttributeOrder attributes =>
      { productType with
        attributes :=
          arrange AttributeDefinition.name (attributes.map (·.name)) productType.attributes }
  | .removeEnumValues attributeName keys =>
      (productType.onPlainValues attributeName (withoutKeys keys)).onLocalizedValues attributeName
        (withoutKeys keys)
  | .addPlainEnumValue attributeName value =>
      productType.onPlainValues attributeName (· ++ [value])
  | .changePlainEnumValueLabel attributeName newValue =>
      productType.onPlainValues attributeName (relabel newValue)
  | .changePlainEnumValueOrder attributeName values =>
      productType.onPlainValues attributeName (reorderValues values)
  | .addLocalizedEnumValue attributeName value =>
      productType.onLocalizedValues attributeName (· ++ [value])
  | .changeLocalizedEnumValueLabel attributeName newValue =>
      productType.onLocalizedValues attributeName (relabel newValue)
  | .changeLocalizedEnumValueOrder attributeName values =>
      productType.onLocalizedValues attributeName (reorderValues values)

/-- The product type after a list of actions, in its next version. -/
def apply (productType : ProductType) (actions : List Action) : ProductType :=
  let changed := actions.foldl perform productType
  { changed with version := changed.version + 1 }

end ProductType

end CatalogSync
