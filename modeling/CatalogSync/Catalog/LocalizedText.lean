import CatalogSync.Json.Codec

/-!
# Localized texts

A text with one value per locale. The values are a map from locales, so two texts are equal exactly
when they have the same value in every locale, whatever the order in which these were written.

## Main results

* `LocalizedText.get?_set`: setting a locale changes the value of that locale only.
* `LocalizedText.ext`: a text is determined by its values.
* `LocalizedText.faithful_codec`: a text is read back as it was written.
-/

namespace CatalogSync

/-- A text with one value per locale. -/
structure LocalizedText where
  /-- The values by locale. -/
  values : KeyMap String
deriving DecidableEq, Repr

namespace LocalizedText

/-- The text without any value. -/
def empty : LocalizedText := ⟨KeyMap.empty⟩

/-- Sets the value of a locale, replacing any previous one. -/
def set (text : LocalizedText) (locale value : String) : LocalizedText :=
  ⟨text.values.insert locale value⟩

/-- The text with a value in one locale. -/
def of (locale value : String) : LocalizedText := empty.set locale value

/-- The text with the given values; of two values for one locale the later counts. -/
def ofList (values : List (String × String)) : LocalizedText :=
  values.foldl (fun text entry => text.set entry.1 entry.2) empty

/-- The value of a locale. -/
def get? (text : LocalizedText) (locale : String) : Option String := text.values.get? locale

/-- Whether no locale has a value. -/
def isEmpty (text : LocalizedText) : Bool := text.values.isEmpty

theorem get?_set {text : LocalizedText} {locale other value : String} :
    (text.set locale value).get? other = if other = locale then some value else text.get? other :=
  KeyMap.get?_insert

/-- A text is determined by its values. -/
theorem ext {left right : LocalizedText} (h : ∀ locale, left.get? locale = right.get? locale) :
    left = right := by
  cases left
  cases right
  exact congrArg LocalizedText.mk (KeyMap.ext_get? h)

/-- A localized text is written as an object of its values. -/
def codec : Codec LocalizedText where
  encode text := .object (text.values.entries.map fun entry => (entry.1, .string entry.2))
  decode
    | .object members => do
        let values ← members.mapM fun entry => do return (entry.1, ← entry.2.asString?)
        return ofList values
    | _ => none

theorem values_ofList {values : List (String × String)} :
    (ofList values).values = KeyMap.ofList values := by
  have hFold : ∀ text : LocalizedText,
      (values.foldl (fun text entry => text.set entry.1 entry.2) text).values =
        values.foldl (fun map entry => map.insert entry.1 entry.2) text.values := by
    induction values with
    | nil => exact fun _ => rfl
    | cons head tail ih => exact fun text => ih (text.set head.1 head.2)
  exact hFold empty

/-- A text is read back as it was written. -/
theorem faithful_codec : codec.Faithful := by
  intro text
  have hMembers : (text.values.entries.map fun entry => (entry.1, Json.string entry.2)).mapM
      (fun entry => do return (entry.1, ← entry.2.asString?)) = some text.values.entries := by
    induction text.values.entries with
    | nil => rfl
    | cons head tail ih =>
        rw [List.map_cons, List.mapM_cons, ih]
        rfl
  have hValues : ofList text.values.entries = text := by
    refine ext fun locale => ?_
    rw [get?, values_ofList, KeyMap.ofList_entries, get?]
  simp only [codec]
  rw [hMembers, Option.bind_eq_bind, Option.bind_some, hValues]
  rfl

theorem neverNull_codec : codec.NeverNull := fun _ hNull => nomatch hNull

/-- A text that may be absent is found at the head of the record. -/
theorem optional_codec {fields : List (String × Json)} {name : String}
    {value : Option LocalizedText} :
    codec.optional ((name, codec.encodeOption value) :: fields) name = some value :=
  Codec.optional_self (Codec.decodeOption_encodeOption faithful_codec neverNull_codec value)

end LocalizedText

end CatalogSync
