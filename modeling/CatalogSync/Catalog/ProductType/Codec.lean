import CatalogSync.Catalog.ProductType.Basic

/-!
# The written form of product types

## Main results

* `Draft.faithful_codec`, `faithful_codec`, `Action.faithful_codec`: drafts, product types and
  actions are read back as they were written.
-/

namespace CatalogSync

/-- How attributes are written, for a form of their types. -/
def AttributeDefinition.codecOver (types : Codec ValueType) : Codec AttributeDefinition where
  encode definition := .object
    [ ("name", .string definition.name)
    , ("label", LocalizedText.codec.encode definition.label)
    , ("attributeType", types.encode definition.attributeType) ]
  decode value := do
    let fields ← value.record? ["name", "label", "attributeType"]
    return { name := ← Codec.string.required fields "name"
             label := ← LocalizedText.codec.required fields "label"
             attributeType := ← types.required fields "attributeType" }

/-- How attributes are written. -/
def AttributeDefinition.codec : Codec AttributeDefinition := codecOver ValueType.codec

/-- How attributes are written as part of an action. -/
def AttributeDefinition.nested : Codec AttributeDefinition := codecOver ValueType.nested

/-- An attribute is read back as it was written, if its type is. -/
theorem AttributeDefinition.faithful_codecOver {types : Codec ValueType}
    (hTypes : types.Faithful) : (codecOver types).Faithful := by
  intro definition
  simp only [codecOver, Json.record?, Option.bind_eq_bind, Option.bind_some]
  simp (disch := decide) only [Codec.required_skip, Codec.required_string,
    Codec.required_self (LocalizedText.faithful_codec _), Codec.required_self (hTypes _)]
  rfl

theorem AttributeDefinition.faithful_codec : codec.Faithful :=
  faithful_codecOver ValueType.faithful_codec

theorem AttributeDefinition.faithful_nested : nested.Faithful :=
  faithful_codecOver ValueType.faithful_nested

namespace ProductType

/-- How drafts of product types are written. -/
def Draft.codec : Codec Draft where
  encode draft := .object
    [ ("key", Codec.string.encodeOption draft.key)
    , ("name", .string draft.name)
    , ("description", .string draft.description)
    , ("attributes", (Codec.list AttributeDefinition.codec).encodeOption draft.attributes) ]
  decode value := do
    let fields ← value.record? ["key", "name", "description", "attributes"]
    return { key := ← Codec.string.optional fields "key"
             name := ← Codec.string.required fields "name"
             description := ← Codec.string.required fields "description"
             attributes := ← (Codec.list AttributeDefinition.codec).optional fields "attributes" }

/-- A draft is read back as it was written. -/
theorem Draft.faithful_codec : Draft.codec.Faithful := by
  intro draft
  have hAttributes := Codec.decodeOption_encodeOption
    (Codec.faithful_list AttributeDefinition.faithful_codec) Codec.neverNull_list draft.attributes
  simp only [Draft.codec, Json.record?, Option.bind_eq_bind, Option.bind_some]
  simp (disch := decide) only [Codec.optional_skip, Codec.required_skip, Codec.optional_string,
    Codec.optional_self hAttributes, Codec.required_string]
  rfl

/-- How product types are written. -/
def codec : Codec ProductType where
  encode productType := .object
    [ ("id", .string productType.id)
    , ("key", .string productType.key)
    , ("version", Codec.word.encode productType.version)
    , ("name", .string productType.name)
    , ("description", .string productType.description)
    , ("attributes", (Codec.list AttributeDefinition.codec).encode productType.attributes) ]
  decode value := do
    let fields ← value.record? ["id", "key", "version", "name", "description", "attributes"]
    return { id := ← Codec.string.required fields "id"
             key := ← Codec.string.required fields "key"
             version := ← Codec.word.required fields "version"
             name := ← Codec.string.required fields "name"
             description := ← Codec.string.required fields "description"
             attributes := ← (Codec.list AttributeDefinition.codec).required fields "attributes" }

/-- A product type is read back as it was written. -/
theorem faithful_codec : codec.Faithful := by
  intro productType
  have hAttributes :=
    Codec.faithful_list AttributeDefinition.faithful_codec productType.attributes
  simp only [codec, Json.record?, Option.bind_eq_bind, Option.bind_some]
  simp (disch := decide) only [Codec.required_skip, Codec.required_string,
    Codec.required_self (Codec.faithful_word _), Codec.required_self hAttributes]
  rfl

/-- An action on one attribute, with one more member. -/
def attributeAction (action attributeName member : String) (value : Json) : Json :=
  .tagged "action" action [("attributeName", .string attributeName), (member, value)]

/-- Reads the attribute name and one more member of an action. -/
def attributeMembers? {α : Type} (codec : Codec α) (rest : Json) (member : String) :
    Option (String × α) := do
  let fields ← rest.record? ["attributeName", member]
  return (← Codec.string.required fields "attributeName", ← codec.required fields member)

/-- How actions on product types are written. -/
def Action.codec : Codec Action where
  encode
    | .changeName name => .tagged "action" "changeName" [("name", .string name)]
    | .changeDescription description =>
        .tagged "action" "changeDescription" [("description", .string description)]
    | .removeAttributeDefinition name =>
        .tagged "action" "removeAttributeDefinition" [("name", .string name)]
    | .addAttributeDefinition definition =>
        .tagged "action" "addAttributeDefinition"
          [("attribute", AttributeDefinition.nested.encode definition)]
    | .changeAttributeDefinitionLabel attributeName label =>
        attributeAction "changeAttributeDefinitionLabel" attributeName "label"
          (LocalizedText.codec.encode label)
    | .changeAttributeOrder attributes =>
        .tagged "action" "changeAttributeOrder"
          [("attributes", (Codec.list AttributeDefinition.nested).encode attributes)]
    | .removeEnumValues attributeName keys =>
        attributeAction "removeEnumValues" attributeName "keys"
          ((Codec.list Codec.string).encode keys)
    | .addPlainEnumValue attributeName value =>
        attributeAction "addPlainEnumValue" attributeName "value" (EnumValue.plain.encode value)
    | .changePlainEnumValueLabel attributeName newValue =>
        attributeAction "changePlainEnumValueLabel" attributeName "newValue"
          (EnumValue.plain.encode newValue)
    | .changePlainEnumValueOrder attributeName values =>
        attributeAction "changePlainEnumValueOrder" attributeName "values"
          ((Codec.list EnumValue.plain).encode values)
    | .addLocalizedEnumValue attributeName value =>
        attributeAction "addLocalizedEnumValue" attributeName "value"
          (EnumValue.localized.encode value)
    | .changeLocalizedEnumValueLabel attributeName newValue =>
        attributeAction "changeLocalizedEnumValueLabel" attributeName "newValue"
          (EnumValue.localized.encode newValue)
    | .changeLocalizedEnumValueOrder attributeName values =>
        attributeAction "changeLocalizedEnumValueOrder" attributeName "values"
          ((Codec.list EnumValue.localized).encode values)
  decode value := do
    let (action, rest) ← value.tagged? "action"
    match action with
    | "changeName" =>
        return .changeName (← Codec.string.required (← rest.record? ["name"]) "name")
    | "changeDescription" =>
        return .changeDescription
          (← Codec.string.required (← rest.record? ["description"]) "description")
    | "removeAttributeDefinition" =>
        return .removeAttributeDefinition
          (← Codec.string.required (← rest.record? ["name"]) "name")
    | "addAttributeDefinition" =>
        return .addAttributeDefinition
          (← AttributeDefinition.nested.required (← rest.record? ["attribute"]) "attribute")
    | "changeAttributeDefinitionLabel" =>
        let (attributeName, label) ← attributeMembers? LocalizedText.codec rest "label"
        return .changeAttributeDefinitionLabel attributeName label
    | "changeAttributeOrder" =>
        return .changeAttributeOrder
          (← (Codec.list AttributeDefinition.nested).required (← rest.record? ["attributes"])
            "attributes")
    | "removeEnumValues" =>
        let (attributeName, keys) ← attributeMembers? (Codec.list Codec.string) rest "keys"
        return .removeEnumValues attributeName keys
    | "addPlainEnumValue" =>
        let (attributeName, value) ← attributeMembers? EnumValue.plain rest "value"
        return .addPlainEnumValue attributeName value
    | "changePlainEnumValueLabel" =>
        let (attributeName, newValue) ← attributeMembers? EnumValue.plain rest "newValue"
        return .changePlainEnumValueLabel attributeName newValue
    | "changePlainEnumValueOrder" =>
        let (attributeName, values) ← attributeMembers? (Codec.list EnumValue.plain) rest "values"
        return .changePlainEnumValueOrder attributeName values
    | "addLocalizedEnumValue" =>
        let (attributeName, value) ← attributeMembers? EnumValue.localized rest "value"
        return .addLocalizedEnumValue attributeName value
    | "changeLocalizedEnumValueLabel" =>
        let (attributeName, newValue) ← attributeMembers? EnumValue.localized rest "newValue"
        return .changeLocalizedEnumValueLabel attributeName newValue
    | "changeLocalizedEnumValueOrder" =>
        let (attributeName, values) ←
          attributeMembers? (Codec.list EnumValue.localized) rest "values"
        return .changeLocalizedEnumValueOrder attributeName values
    | _ => none

/-- An action is read back as it was written: the tag names the variant, and the reader of the
variant finds the members that its writer put behind the tag. -/
theorem Action.faithful_codec : Action.codec.Faithful := by
  intro action
  have hKeys := Codec.faithful_list Codec.faithful_string
  have hPlain := Codec.faithful_list EnumValue.faithful_plain
  have hLocalized := Codec.faithful_list EnumValue.faithful_localized
  have hAttributes := Codec.faithful_list AttributeDefinition.faithful_nested
  cases action <;>
    · simp only [Action.codec, attributeAction, Json.tagged?_tagged, Option.bind_eq_bind,
        Option.bind_some, attributeMembers?, Json.record?]
      simp (disch := decide) only [Codec.required_skip, Codec.required_string,
        Codec.required_self (hKeys _), Codec.required_self (hPlain _),
        Codec.required_self (hLocalized _), Codec.required_self (hAttributes _),
        Codec.required_self (LocalizedText.faithful_codec _),
        Codec.required_self (EnumValue.faithful_plain _),
        Codec.required_self (EnumValue.faithful_localized _),
        Codec.required_self (AttributeDefinition.faithful_nested _)]
      rfl

end ProductType

end CatalogSync
