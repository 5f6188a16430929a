import CatalogSync.Catalog.CustomType.Basic

/-!
# The written form of custom types

## Main results

* `Draft.faithful_codec`, `faithful_codec`, `Action.faithful_codec`: drafts, custom types and
  actions are read back as they were written.
-/

namespace CatalogSync

/-- How fields are written, for a form of their types. -/
def FieldDefinition.codecOver (types : Codec ValueType) : Codec FieldDefinition where
  encode field := .object
    [ ("name", .string field.name)
    , ("label", LocalizedText.codec.encode field.label)
    , ("fieldType", types.encode field.fieldType) ]
  decode value := do
    let fields ← value.record? ["name", "label", "fieldType"]
    return { name := ← Codec.string.required fields "name"
             label := ← LocalizedText.codec.required fields "label"
             fieldType := ← types.required fields "fieldType" }

/-- How fields are written. -/
def FieldDefinition.codec : Codec FieldDefinition := codecOver ValueType.codec

/-- How fields are written as part of an action. -/
def FieldDefinition.nested : Codec FieldDefinition := codecOver ValueType.nested

/-- A field is read back as it was written, if its type is. -/
theorem FieldDefinition.faithful_codecOver {types : Codec ValueType}
    (hTypes : types.Faithful) : (codecOver types).Faithful := by
  intro field
  simp only [codecOver, Json.record?, Option.bind_eq_bind, Option.bind_some]
  simp (disch := decide) only [Codec.required_skip, Codec.required_string,
    Codec.required_self (LocalizedText.faithful_codec _), Codec.required_self (hTypes _)]
  rfl

theorem FieldDefinition.faithful_codec : codec.Faithful :=
  faithful_codecOver ValueType.faithful_codec

theorem FieldDefinition.faithful_nested : nested.Faithful :=
  faithful_codecOver ValueType.faithful_nested

namespace CustomType

/-- How drafts of custom types are written. -/
def Draft.codec : Codec Draft where
  encode draft := .object
    [ ("key", Codec.string.encodeOption draft.key)
    , ("name", LocalizedText.codec.encode draft.name)
    , ("description", LocalizedText.codec.encodeOption draft.description)
    , ("fieldDefinitions", (Codec.list FieldDefinition.codec).encode draft.fieldDefinitions) ]
  decode value := do
    let fields ← value.record? ["key", "name", "description", "fieldDefinitions"]
    return { key := ← Codec.string.optional fields "key"
             name := ← LocalizedText.codec.required fields "name"
             description := ← LocalizedText.codec.optional fields "description"
             fieldDefinitions :=
               ← (Codec.list FieldDefinition.codec).required fields "fieldDefinitions" }

/-- A draft is read back as it was written. -/
theorem Draft.faithful_codec : Draft.codec.Faithful := by
  intro draft
  have hFields := Codec.faithful_list FieldDefinition.faithful_codec draft.fieldDefinitions
  simp only [Draft.codec, Json.record?, Option.bind_eq_bind, Option.bind_some]
  simp (disch := decide) only [Codec.optional_skip, Codec.required_skip, Codec.optional_string,
    LocalizedText.optional_codec, Codec.required_self (LocalizedText.faithful_codec _),
    Codec.required_self hFields]
  rfl

/-- How custom types are written. -/
def codec : Codec CustomType where
  encode customType := .object
    [ ("id", .string customType.id)
    , ("key", .string customType.key)
    , ("version", Codec.word.encode customType.version)
    , ("name", LocalizedText.codec.encode customType.name)
    , ("description", LocalizedText.codec.encodeOption customType.description)
    , ("fieldDefinitions", (Codec.list FieldDefinition.codec).encode customType.fieldDefinitions) ]
  decode value := do
    let fields ← value.record?
      ["id", "key", "version", "name", "description", "fieldDefinitions"]
    return { id := ← Codec.string.required fields "id"
             key := ← Codec.string.required fields "key"
             version := ← Codec.word.required fields "version"
             name := ← LocalizedText.codec.required fields "name"
             description := ← LocalizedText.codec.optional fields "description"
             fieldDefinitions :=
               ← (Codec.list FieldDefinition.codec).required fields "fieldDefinitions" }

/-- A custom type is read back as it was written. -/
theorem faithful_codec : codec.Faithful := by
  intro customType
  have hFields := Codec.faithful_list FieldDefinition.faithful_codec customType.fieldDefinitions
  simp only [codec, Json.record?, Option.bind_eq_bind, Option.bind_some]
  simp (disch := decide) only [Codec.optional_skip, Codec.required_skip, Codec.required_string,
    Codec.required_self (Codec.faithful_word _),
    Codec.required_self (LocalizedText.faithful_codec _), LocalizedText.optional_codec,
    Codec.required_self hFields]
  rfl

/-- An action on one field, with one more member. -/
def fieldAction (action fieldName member : String) (value : Json) : Json :=
  .tagged "action" action [("fieldName", .string fieldName), (member, value)]

/-- Reads the field name and one more member of an action. -/
def fieldMembers? {α : Type} (codec : Codec α) (rest : Json) (member : String) :
    Option (String × α) := do
  let fields ← rest.record? ["fieldName", member]
  return (← Codec.string.required fields "fieldName", ← codec.required fields member)

/-- How actions on custom types are written. -/
def Action.codec : Codec Action where
  encode
    | .changeName name => .tagged "action" "changeName" [("name", LocalizedText.codec.encode name)]
    | .setDescription description =>
        .tagged "action" "setDescription"
          [("description", LocalizedText.codec.encodeOption description)]
    | .removeFieldDefinition fieldName =>
        .tagged "action" "removeFieldDefinition" [("fieldName", .string fieldName)]
    | .addFieldDefinition fieldDefinition =>
        .tagged "action" "addFieldDefinition"
          [("fieldDefinition", FieldDefinition.nested.encode fieldDefinition)]
    | .changeFieldDefinitionLabel fieldName label =>
        fieldAction "changeFieldDefinitionLabel" fieldName "label"
          (LocalizedText.codec.encode label)
    | .changeFieldDefinitionOrder fieldNames =>
        .tagged "action" "changeFieldDefinitionOrder"
          [("fieldNames", (Codec.list Codec.string).encode fieldNames)]
    | .addEnumValue fieldName value =>
        fieldAction "addEnumValue" fieldName "value" (EnumValue.plain.encode value)
    | .changeEnumValueOrder fieldName keys =>
        fieldAction "changeEnumValueOrder" fieldName "keys" ((Codec.list Codec.string).encode keys)
    | .addLocalizedEnumValue fieldName value =>
        fieldAction "addLocalizedEnumValue" fieldName "value" (EnumValue.localized.encode value)
    | .changeLocalizedEnumValueOrder fieldName keys =>
        fieldAction "changeLocalizedEnumValueOrder" fieldName "keys"
          ((Codec.list Codec.string).encode keys)
  decode value := do
    let (action, rest) ← value.tagged? "action"
    match action with
    | "changeName" =>
        return .changeName (← LocalizedText.codec.required (← rest.record? ["name"]) "name")
    | "setDescription" =>
        return .setDescription
          (← LocalizedText.codec.optional (← rest.record? ["description"]) "description")
    | "removeFieldDefinition" =>
        return .removeFieldDefinition
          (← Codec.string.required (← rest.record? ["fieldName"]) "fieldName")
    | "addFieldDefinition" =>
        return .addFieldDefinition
          (← FieldDefinition.nested.required (← rest.record? ["fieldDefinition"])
            "fieldDefinition")
    | "changeFieldDefinitionLabel" =>
        let (fieldName, label) ← fieldMembers? LocalizedText.codec rest "label"
        return .changeFieldDefinitionLabel fieldName label
    | "changeFieldDefinitionOrder" =>
        return .changeFieldDefinitionOrder
          (← (Codec.list Codec.string).required (← rest.record? ["fieldNames"]) "fieldNames")
    | "addEnumValue" =>
        let (fieldName, value) ← fieldMembers? EnumValue.plain rest "value"
        return .addEnumValue fieldName value
    | "changeEnumValueOrder" =>
        let (fieldName, keys) ← fieldMembers? (Codec.list Codec.string) rest "keys"
        return .changeEnumValueOrder fieldName keys
    | "addLocalizedEnumValue" =>
        let (fieldName, value) ← fieldMembers? EnumValue.localized rest "value"
        return .addLocalizedEnumValue fieldName value
    | "changeLocalizedEnumValueOrder" =>
        let (fieldName, keys) ← fieldMembers? (Codec.list Codec.string) rest "keys"
        return .changeLocalizedEnumValueOrder fieldName keys
    | _ => none

/-- An action is read back as it was written: the tag names the variant, and the reader of the
variant finds the members that its writer put behind the tag. -/
theorem Action.faithful_codec : Action.codec.Faithful := by
  intro action
  have hKeys := Codec.faithful_list Codec.faithful_string
  cases action <;>
    · simp only [Action.codec, fieldAction, Json.tagged?_tagged, Option.bind_eq_bind,
        Option.bind_some, fieldMembers?, Json.record?]
      simp (disch := decide) only [Codec.required_skip, Codec.optional_skip, Codec.required_string,
        LocalizedText.optional_codec, Codec.required_self (hKeys _),
        Codec.required_self (LocalizedText.faithful_codec _),
        Codec.required_self (EnumValue.faithful_plain _),
        Codec.required_self (EnumValue.faithful_localized _),
        Codec.required_self (FieldDefinition.faithful_nested _)]
      rfl

end CustomType

end CatalogSync
