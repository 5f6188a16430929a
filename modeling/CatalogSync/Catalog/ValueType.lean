import CatalogSync.Catalog.LocalizedText

/-!
# Value types

The type of an attribute or of a custom field: a text, a number, a truth value, or one of an ordered
list of enum values. The labels of enum values are plain or localized; a list never mixes the two.

## Main results

* `ValueType.eq_of_kind_eq`: the kind of a type is all of it, unless it is an enumeration.
* `ValueType.nested_decode`: as part of an action a value type is read from everything it is read
  from by itself, with the same result.
* `ValueType.faithful_codec`, `ValueType.faithful_nested`: a value type is read back as it was
  written, by itself and as part of an action.
-/

namespace CatalogSync

/-- One value of an enumeration. -/
structure EnumValue (Label : Type) where
  /-- The key that tells the value apart. -/
  key : String
  /-- What is shown for the value. -/
  label : Label
deriving DecidableEq, Repr

/-- The type of an attribute or custom field. -/
inductive ValueType where
  /-- Free text. -/
  | text
  /-- A number. -/
  | number
  /-- A truth value. -/
  | boolean
  /-- One of an ordered list of values with plain labels. -/
  | enum (values : List (EnumValue String))
  /-- One of an ordered list of values with localized labels. -/
  | localizedEnum (values : List (EnumValue LocalizedText))
deriving DecidableEq, Repr

namespace EnumValue

/-- An enum value is written as its key and its label. -/
def codec {Label : Type} (label : Codec Label) : Codec (EnumValue Label) where
  encode value := .object [("key", .string value.key), ("label", label.encode value.label)]
  decode value := do
    let fields ← value.record? ["key", "label"]
    return { key := ← Codec.string.required fields "key"
             label := ← label.required fields "label" }

/-- An enum value is read back as it was written, if its label is. -/
theorem faithful_codec {Label : Type} {label : Codec Label} (hLabel : label.Faithful) :
    (codec label).Faithful := by
  intro value
  simp only [codec, Json.record?, Option.bind_eq_bind, Option.bind_some]
  simp (disch := decide) only [Codec.required_skip, Codec.required_string,
    Codec.required_self (hLabel _)]
  rfl

/-- Values with plain labels. -/
def plain : Codec (EnumValue String) := codec Codec.string

/-- Values with localized labels. -/
def localized : Codec (EnumValue LocalizedText) := codec LocalizedText.codec

theorem faithful_plain : plain.Faithful := faithful_codec Codec.faithful_string

theorem faithful_localized : localized.Faithful := faithful_codec LocalizedText.faithful_codec

end EnumValue

namespace ValueType

/-- What the type is called in a refusal, whatever its enum values. -/
def kind : ValueType → String
  | .text => "text"
  | .number => "number"
  | .boolean => "boolean"
  | .enum _ => "enum"
  | .localizedEnum _ => "localized enum"

/-- Types of one kind that are not two enumerations are the same type. -/
theorem eq_of_kind_eq {left right : ValueType} (hKind : left.kind = right.kind)
    (hPlain : ∀ values others, left = .enum values → right = .enum others → False)
    (hLocalized : ∀ values others,
      left = .localizedEnum values → right = .localizedEnum others → False) : left = right := by
  cases left <;> cases right
  case enum.enum values others => exact (hPlain values others rfl rfl).elim
  case localizedEnum.localizedEnum values others => exact (hLocalized values others rfl rfl).elim
  all_goals simp_all [kind]

/-- Whether no two values of an enumeration have the same key. -/
def WellKeyed : ValueType → Prop
  | .enum values => (values.map EnumValue.key).Nodup
  | .localizedEnum values => (values.map EnumValue.key).Nodup
  | _ => True

instance (type : ValueType) : Decidable type.WellKeyed :=
  match type with
  | .enum values => inferInstanceAs (Decidable (values.map EnumValue.key).Nodup)
  | .localizedEnum values => inferInstanceAs (Decidable (values.map EnumValue.key).Nodup)
  | .text | .number | .boolean => isTrue trivial

/-- Changes the values of an enumeration with plain labels; other types stay as they are. -/
def mapPlain (f : List (EnumValue String) → List (EnumValue String)) : ValueType → ValueType
  | .enum values => .enum (f values)
  | other => other

/-- Changes the values of an enumeration with localized labels; other types stay as they are. -/
def mapLocalized (f : List (EnumValue LocalizedText) → List (EnumValue LocalizedText)) :
    ValueType → ValueType
  | .localizedEnum values => .localizedEnum (f values)
  | other => other

/-- The names of the value types in writing, in the order of their declaration. -/
def names : List String := ["text", "number", "boolean", "enum", "localizedEnum"]

/-- Reads the value type that a name stands for; an enum takes its values from the record. -/
def named? (name : String) (rest : Json) : Option ValueType :=
  match name with
  | "text" => (rest.record? []).map fun _ => .text
  | "number" => (rest.record? []).map fun _ => .number
  | "boolean" => (rest.record? []).map fun _ => .boolean
  | "enum" => do
      let fields ← rest.record? ["values"]
      return .enum (← (Codec.list EnumValue.plain).required fields "values")
  | "localizedEnum" => do
      let fields ← rest.record? ["values"]
      return .localizedEnum (← (Codec.list EnumValue.localized).required fields "values")
  | _ => none

/-- A value type is written as a variant named by its kind, with its values if it is an enum. -/
def codec : Codec ValueType where
  encode
    | .text => .tagged "name" "text" []
    | .number => .tagged "name" "number" []
    | .boolean => .tagged "name" "boolean" []
    | .enum values =>
        .tagged "name" "enum" [("values", (Codec.list EnumValue.plain).encode values)]
    | .localizedEnum values =>
        .tagged "name" "localizedEnum" [("values", (Codec.list EnumValue.localized).encode values)]
  decode value := do
    let (name, rest) ← value.tagged? "name"
    named? name rest

/-- A value type as part of an action: written as by itself, and read by name or by number. -/
def nested : Codec ValueType where
  encode := codec.encode
  decode value := do
    let (name, rest) ← value.taggedAmong? names "name"
    named? name rest

/-- What a value type is read from by itself, it is also read from as part of an action. -/
theorem nested_decode {value : Json} {type : ValueType}
    (hDecode : codec.decode value = some type) : nested.decode value = some type := by
  obtain ⟨found, hFound, hNamed⟩ := Option.bind_eq_some_iff.mp hDecode
  exact Option.bind_eq_some_iff.mpr ⟨found, Json.taggedAmong?_of_tagged? hFound, hNamed⟩

/-- A value type is read back as it was written. -/
theorem faithful_codec : codec.Faithful := by
  intro type
  cases type with
  | enum values =>
      have hValues := Codec.faithful_list EnumValue.faithful_plain values
      simp only [codec, Json.tagged?_tagged, Option.bind_eq_bind, Option.bind_some, named?,
        Json.record?]
      simp (disch := decide) only [Codec.required_skip, Codec.required_self hValues]
      rfl
  | localizedEnum values =>
      have hValues := Codec.faithful_list EnumValue.faithful_localized values
      simp only [codec, Json.tagged?_tagged, Option.bind_eq_bind, Option.bind_some, named?,
        Json.record?]
      simp (disch := decide) only [Codec.required_skip, Codec.required_self hValues]
      rfl
  | _ => rfl

/-- As part of an action, too, a value type is read back as it was written. -/
theorem faithful_nested : nested.Faithful := fun type => nested_decode (faithful_codec type)

end ValueType

end CatalogSync
