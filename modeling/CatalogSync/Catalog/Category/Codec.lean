import CatalogSync.Catalog.Category.Basic

/-!
# The written form of categories

## Main results

* `Draft.faithful_codec`, `faithful_codec`, `Action.faithful_codec`: drafts, categories and actions
  are read back as they were written.
-/

namespace CatalogSync.Category

/-- How drafts of categories are written. -/
def Draft.codec : Codec Draft where
  encode draft := .object
    [ ("key", Codec.string.encodeOption draft.key)
    , ("name", LocalizedText.codec.encode draft.name)
    , ("slug", LocalizedText.codec.encode draft.slug)
    , ("description", LocalizedText.codec.encodeOption draft.description)
    , ("parent", Codec.string.encodeOption draft.parent)
    , ("orderHint", Codec.string.encodeOption draft.orderHint)
    , ("externalId", Codec.string.encodeOption draft.externalId) ]
  decode value := do
    let fields ← value.record?
      ["key", "name", "slug", "description", "parent", "orderHint", "externalId"]
    return { key := ← Codec.string.optional fields "key"
             name := ← LocalizedText.codec.required fields "name"
             slug := ← LocalizedText.codec.required fields "slug"
             description := ← LocalizedText.codec.optional fields "description"
             parent := ← Codec.string.optional fields "parent"
             orderHint := ← Codec.string.optional fields "orderHint"
             externalId := ← Codec.string.optional fields "externalId" }

/-- A draft is read back as it was written. -/
theorem Draft.faithful_codec : Draft.codec.Faithful := by
  intro draft
  simp only [Draft.codec, Json.record?, Option.bind_eq_bind, Option.bind_some]
  simp (disch := decide) only [Codec.optional_skip, Codec.required_skip, Codec.optional_string,
    LocalizedText.optional_codec, Codec.required_self (LocalizedText.faithful_codec _)]
  rfl

/-- How categories are written. -/
def codec : Codec Category where
  encode category := .object
    [ ("id", .string category.id)
    , ("key", .string category.key)
    , ("version", Codec.word.encode category.version)
    , ("name", LocalizedText.codec.encode category.name)
    , ("slug", LocalizedText.codec.encode category.slug)
    , ("description", LocalizedText.codec.encodeOption category.description)
    , ("parent", Codec.string.encodeOption category.parent)
    , ("orderHint", Codec.string.encodeOption category.orderHint)
    , ("externalId", Codec.string.encodeOption category.externalId) ]
  decode value := do
    let fields ← value.record?
      ["id", "key", "version", "name", "slug", "description", "parent", "orderHint", "externalId"]
    return { id := ← Codec.string.required fields "id"
             key := ← Codec.string.required fields "key"
             version := ← Codec.word.required fields "version"
             name := ← LocalizedText.codec.required fields "name"
             slug := ← LocalizedText.codec.required fields "slug"
             description := ← LocalizedText.codec.optional fields "description"
             parent := ← Codec.string.optional fields "parent"
             orderHint := ← Codec.string.optional fields "orderHint"
             externalId := ← Codec.string.optional fields "externalId" }

/-- A category is read back as it was written. -/
theorem faithful_codec : codec.Faithful := by
  intro category
  simp only [codec, Json.record?, Option.bind_eq_bind, Option.bind_some]
  simp (disch := decide) only [Codec.optional_skip, Codec.required_skip, Codec.required_string,
    Codec.required_self (Codec.faithful_word _),
    Codec.required_self (LocalizedText.faithful_codec _), LocalizedText.optional_codec,
    Codec.optional_string]
  rfl

/-- How actions on categories are written. -/
def Action.codec : Codec Action where
  encode
    | .changeName name => .tagged "action" "changeName" [("name", LocalizedText.codec.encode name)]
    | .changeSlug slug => .tagged "action" "changeSlug" [("slug", LocalizedText.codec.encode slug)]
    | .setDescription description =>
        .tagged "action" "setDescription"
          [("description", LocalizedText.codec.encodeOption description)]
    | .changeParent parent => .tagged "action" "changeParent" [("parent", .string parent)]
    | .changeOrderHint orderHint =>
        .tagged "action" "changeOrderHint" [("orderHint", .string orderHint)]
    | .setExternalId externalId =>
        .tagged "action" "setExternalId" [("externalId", Codec.string.encodeOption externalId)]
  decode value := do
    let (action, rest) ← value.tagged? "action"
    match action with
    | "changeName" =>
        return .changeName (← LocalizedText.codec.required (← rest.record? ["name"]) "name")
    | "changeSlug" =>
        return .changeSlug (← LocalizedText.codec.required (← rest.record? ["slug"]) "slug")
    | "setDescription" =>
        return .setDescription
          (← LocalizedText.codec.optional (← rest.record? ["description"]) "description")
    | "changeParent" =>
        return .changeParent (← Codec.string.required (← rest.record? ["parent"]) "parent")
    | "changeOrderHint" =>
        return .changeOrderHint
          (← Codec.string.required (← rest.record? ["orderHint"]) "orderHint")
    | "setExternalId" =>
        return .setExternalId
          (← Codec.string.optional (← rest.record? ["externalId"]) "externalId")
    | _ => none

/-- An action is read back as it was written: the tag names the variant, and the reader of the
variant finds the members that its writer put behind the tag. -/
theorem Action.faithful_codec : Action.codec.Faithful := by
  intro action
  cases action <;>
    · simp only [Action.codec, Json.tagged?_tagged, Option.bind_eq_bind, Option.bind_some,
        Json.record?]
      simp (disch := decide) only [Codec.required_skip, Codec.optional_skip, Codec.required_string,
        Codec.optional_string, LocalizedText.optional_codec,
        Codec.required_self (LocalizedText.faithful_codec _)]
      rfl

end CatalogSync.Category
