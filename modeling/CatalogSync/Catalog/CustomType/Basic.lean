import CatalogSync.Catalog.ValueType
import CatalogSync.KeyedList.Arrange

/-!
# Custom types

A custom type adds an ordered list of fields to the resources that use it. The remote never removes
an enum value of a field and never changes its label: such values are only added and reordered.
-/

namespace CatalogSync

open KeyedList (arrange modifyFirst)

/-- A custom field. -/
structure FieldDefinition where
  /-- The name, which tells the field apart within its custom type. -/
  name : String
  /-- What is shown for the field. -/
  label : LocalizedText
  /-- The type of its values. -/
  fieldType : ValueType
deriving DecidableEq, Repr

/-- A custom type as the remote holds it. -/
structure CustomType where
  /-- The identifier given by the remote. -/
  id : String
  /-- The key of the custom type. -/
  key : String
  /-- The version, advanced by every update. -/
  version : UInt64
  /-- The name. -/
  name : LocalizedText
  /-- The description. -/
  description : Option LocalizedText
  /-- The fields in the order in which they are shown. -/
  fieldDefinitions : List FieldDefinition
deriving DecidableEq, Repr

namespace CustomType

/-- The desired state of a custom type. -/
structure Draft where
  /-- The key of the custom type. -/
  key : Option String
  /-- The name. -/
  name : LocalizedText
  /-- The description; an absent one is cleared. -/
  description : Option LocalizedText
  /-- The fields in the order in which they are shown. -/
  fieldDefinitions : List FieldDefinition
deriving DecidableEq, Repr

/-- A single change of a custom type. -/
inductive Action where
  /-- Replaces the name. -/
  | changeName (name : LocalizedText)
  /-- Sets or clears the description. -/
  | setDescription (description : Option LocalizedText)
  /-- Removes a field. -/
  | removeFieldDefinition (fieldName : String)
  /-- Appends a field. -/
  | addFieldDefinition (fieldDefinition : FieldDefinition)
  /-- Replaces the label of a field. -/
  | changeFieldDefinitionLabel (fieldName : String) (label : LocalizedText)
  /-- Brings the fields into the order of a list of names. -/
  | changeFieldDefinitionOrder (fieldNames : List String)
  /-- Appends an enum value with a plain label. -/
  | addEnumValue (fieldName : String) (value : EnumValue String)
  /-- Brings the enum values with plain labels into the order of a list of keys. -/
  | changeEnumValueOrder (fieldName : String) (keys : List String)
  /-- Appends an enum value with a localized label. -/
  | addLocalizedEnumValue (fieldName : String) (value : EnumValue LocalizedText)
  /-- Brings the enum values with localized labels into the order of a list of keys. -/
  | changeLocalizedEnumValueOrder (fieldName : String) (keys : List String)
deriving DecidableEq, Repr

/-- A draft without description and fields. -/
def Draft.basic (key : String) (name : LocalizedText) : Draft :=
  { key := some key, name, description := none, fieldDefinitions := [] }

/-- The custom type that the remote creates from a draft. -/
def ofDraft (draft : Draft) (id : String) : CustomType where
  id
  key := draft.key.getD ""
  version := 1
  name := draft.name
  description := draft.description
  fieldDefinitions := draft.fieldDefinitions

/-- Changes the field with a name. -/
def onField (customType : CustomType) (name : String) (f : FieldDefinition → FieldDefinition) :
    CustomType :=
  { customType with
    fieldDefinitions :=
      modifyFirst (fun field => field.name == name) f customType.fieldDefinitions }

/-- Changes the enum values with plain labels of the field with a name. -/
def onPlainValues (customType : CustomType) (name : String)
    (f : List (EnumValue String) → List (EnumValue String)) : CustomType :=
  customType.onField name fun field => { field with fieldType := field.fieldType.mapPlain f }

/-- Changes the enum values with localized labels of the field with a name. -/
def onLocalizedValues (customType : CustomType) (name : String)
    (f : List (EnumValue LocalizedText) → List (EnumValue LocalizedText)) : CustomType :=
  customType.onField name fun field => { field with fieldType := field.fieldType.mapLocalized f }

/-- The custom type after one action, in the same version. -/
def perform (customType : CustomType) : Action → CustomType
  | .changeName name => { customType with name }
  | .setDescription description => { customType with description }
  | .removeFieldDefinition fieldName =>
      { customType with
        fieldDefinitions := customType.fieldDefinitions.filter fun field =>
          field.name != fieldName }
  | .addFieldDefinition fieldDefinition =>
      { customType with fieldDefinitions := customType.fieldDefinitions ++ [fieldDefinition] }
  | .changeFieldDefinitionLabel fieldName label =>
      customType.onField fieldName fun field => { field with label }
  | .changeFieldDefinitionOrder fieldNames =>
      { customType with
        fieldDefinitions := arrange FieldDefinition.name fieldNames customType.fieldDefinitions }
  | .addEnumValue fieldName value => customType.onPlainValues fieldName (· ++ [value])
  | .changeEnumValueOrder fieldName keys =>
      customType.onPlainValues fieldName (arrange EnumValue.key keys)
  | .addLocalizedEnumValue fieldName value => customType.onLocalizedValues fieldName (· ++ [value])
  | .changeLocalizedEnumValueOrder fieldName keys =>
      customType.onLocalizedValues fieldName (arrange EnumValue.key keys)

/-- The custom type after a list of actions, in its next version. -/
def apply (customType : CustomType) (actions : List Action) : CustomType :=
  let changed := actions.foldl perform customType
  { changed with version := changed.version + 1 }

end CustomType

end CatalogSync
