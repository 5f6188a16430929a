import CatalogSync.Catalog.CustomType.Basic
import CatalogSync.Field
import CatalogSync.KeyedList.Reconcile

/-!
# Differences of custom types

The fields are reconciled by name, and the enum values of a shared field by key. A field keeps the
kind of its type for good. An enum value that the draft lacks stays, and so does a label that the
draft would change.
-/

namespace CatalogSync.CustomType

open KeyedList (Policy)

/-- The policy of the enum values with plain labels of one field. -/
def plainValues (fieldName : String) : Policy (EnumValue String) Action where
  collection := s!"enum values of field '{fieldName}'"
  key := EnumValue.key
  add value _ := .addEnumValue fieldName value
  reorder values := some (.changeEnumValueOrder fieldName (values.map (·.key)))

/-- The policy of the enum values with localized labels of one field. -/
def localizedValues (fieldName : String) : Policy (EnumValue LocalizedText) Action where
  collection := s!"localized enum values of field '{fieldName}'"
  key := EnumValue.key
  add value _ := .addLocalizedEnumValue fieldName value
  reorder values := some (.changeLocalizedEnumValueOrder fieldName (values.map (·.key)))

/-- The actions that turn the type of a field into another of the same kind. -/
def diffType (fieldName : String) : ValueType → ValueType → Except Refusal (List Action)
  | .enum old, .enum new => (plainValues fieldName).reconcile old (some new)
  | .localizedEnum old, .localizedEnum new => (localizedValues fieldName).reconcile old (some new)
  | old, new =>
      if old.kind = new.kind then .ok []
      else .error (.unsupportedChange s!"field '{fieldName}'"
        s!"type changed from {old.kind} to {new.kind}")

/-- The actions that turn a field into another of the same name. -/
def diffField (old new : FieldDefinition) : Except Refusal (List Action) := do
  let relabelled :=
    (Field.change old.label new.label (.changeFieldDefinitionLabel new.name new.label)).toList
  return relabelled ++ (← diffType new.name old.fieldType new.fieldType)

/-- The policy of the fields of a custom type. -/
def fieldPolicy : Policy FieldDefinition Action where
  collection := "field definitions"
  key := FieldDefinition.name
  remove removed := removed.map fun field => .removeFieldDefinition field.name
  change := diffField
  add field _ := .addFieldDefinition field
  reorder fields := some (.changeFieldDefinitionOrder (fields.map (·.name)))

/-- The actions that bring a custom type into the state of a draft. -/
def diff (old : CustomType) (new : Draft) : Except Refusal (List Action) := do
  let renamed := (Field.change old.name new.name (.changeName new.name)).toList
  let described := (Field.setOrClear old.description new.description (.setDescription <| some ·)
    (.setDescription none)).toList
  return renamed ++ described
    ++ (← fieldPolicy.reconcile old.fieldDefinitions (some new.fieldDefinitions))

end CatalogSync.CustomType
