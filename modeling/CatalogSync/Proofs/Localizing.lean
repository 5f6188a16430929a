import CatalogSync.Catalog.LocalizedText
import CatalogSync.Field
import Mathlib.Data.List.Induction

/-!
# How localized texts compare

A text is written locale by locale, in any order and as often as one likes. However it came about,
it has in each locale the value last written there, and it is the text of these values: texts that
answer alike are equal, are written alike, and ask for no change of a field.

## Main results

* `Writing.get?_text`: a text has the value last written.
* `Writing.compares_by_content`: equality, the JSON and the difference of a field depend on the
  values only.
-/

namespace CatalogSync.LocalizedText

/-! ## Values written one after another -/

/-- The value last written for a locale. -/
def lastWritten (writes : List (String × String)) (locale : String) : Option String :=
  (writes.filterMap fun write => if write.1 = locale then some write.2 else none).getLast?

section

variable {writes : List (String × String)} {locale : String}

/-- One more value counts for its locale and for no other. -/
theorem lastWritten_concat {write : String × String} :
    lastWritten (writes ++ [write]) locale =
      if locale = write.1 then some write.2 else lastWritten writes locale := by
  rw [lastWritten, List.filterMap_append, List.filterMap_cons]
  split
  · rename_i hOther
    have hLocale : ¬ locale = write.1 := by
      rintro rfl
      simp at hOther
    rw [List.filterMap_nil, List.append_nil, if_neg hLocale, lastWritten]
  · rename_i value hSame
    obtain ⟨hLocale, rfl⟩ : write.1 = locale ∧ write.2 = value := by simpa using hSame
    rw [List.filterMap_nil, List.getLast?_concat, if_pos hLocale.symm]

/-- A list with one more value is set once more. -/
theorem ofList_concat {write : String × String} :
    ofList (writes ++ [write]) = (ofList writes).set write.1 write.2 := List.foldl_append ..

/-- Of the values given for a locale the last one counts. -/
theorem get?_ofList : (ofList writes).get? locale = lastWritten writes locale := by
  induction writes using List.reverseRecOn with
  | nil => rfl
  | append_singleton writes write ih =>
      rw [ofList_concat, get?_set, ih, lastWritten_concat]

end

/-! ## Texts and how they came about -/

/-- How a text came about: from one value or from several, and then set value by value. -/
inductive Writing where
  /-- One value. -/
  | of (locale value : String)
  /-- A list of values. -/
  | ofList (values : List (String × String))
  /-- One more value. -/
  | set (before : Writing) (locale value : String)

namespace Writing

/-- The text that came about. -/
def text : Writing → LocalizedText
  | of locale value => LocalizedText.of locale value
  | ofList values => LocalizedText.ofList values
  | set before locale value => before.text.set locale value

/-- The values in the order in which they were written. -/
def writes : Writing → List (String × String)
  | of locale value => [(locale, value)]
  | ofList values => values
  | set before locale value => before.writes ++ [(locale, value)]

/-- A text is the list of all that was written. -/
theorem text_eq_ofList (writing : Writing) :
    writing.text = LocalizedText.ofList writing.writes := by
  induction writing with
  | of locale value => rfl
  | ofList values => rfl
  | set before locale value ih => rw [text, writes, ofList_concat, ih]

/-- A text has the value last written. -/
theorem get?_text (writing : Writing) (locale : String) :
    writing.text.get? locale = lastWritten writing.writes locale := by
  rw [text_eq_ofList, get?_ofList]

end Writing

/-! ## Comparing by values -/

variable {left right : LocalizedText}

/-- Texts are equal when they answer alike. -/
theorem eq_iff_get? : left = right ↔ ∀ locale, left.get? locale = right.get? locale :=
  ⟨fun hSame _ => hSame ▸ rfl, ext⟩

/-- Texts that are written alike are equal, since both are read back. -/
theorem encode_injective (hSame : codec.encode left = codec.encode right) : left = right := by
  have hRead : some left = some right := calc
    some left = codec.decode (codec.encode left) := (faithful_codec left).symm
    _ = codec.decode (codec.encode right) := congrArg codec.decode hSame
    _ = some right := faithful_codec right
  exact Option.some.inj hRead

/-- A field is changed when some locale differs. -/
theorem change_eq_some_iff {β : Type} {action : β} :
    Field.change left right action = some action ↔
      ∃ locale, left.get? locale ≠ right.get? locale := by
  rw [← Classical.not_forall, ← eq_iff_get?, Field.change]
  by_cases hSame : left = right
  · rw [if_pos (beq_iff_eq.mpr hSame)]
    exact iff_of_false (Option.some_ne_none action).symm (not_not.mpr hSame)
  · rw [if_neg (mt eq_of_beq hSame)]
    exact iff_of_true rfl hSame

/--
Texts compare by what they hold. However two texts came about, each has in every locale the value
last written there, or none; they are equal, and their JSON is the same, exactly when they agree in
every locale; and a field that holds the one asks for a change into the other exactly when they
differ in some locale.
-/
theorem Writing.compares_by_content (left right : Writing) :
    (∀ locale, left.text.get? locale = lastWritten left.writes locale ∧
      right.text.get? locale = lastWritten right.writes locale) ∧
    (left.text = right.text ↔ ∀ locale, left.text.get? locale = right.text.get? locale) ∧
    (codec.encode left.text = codec.encode right.text ↔
      ∀ locale, left.text.get? locale = right.text.get? locale) ∧
    ∀ {β : Type} (action : β),
      (Field.change left.text right.text action = some action ↔
        ∃ locale, left.text.get? locale ≠ right.text.get? locale) ∧
      (Field.change left.text right.text action = none ↔
        ∀ locale, left.text.get? locale = right.text.get? locale) := by
  refine ⟨fun locale => ⟨left.get?_text locale, right.get?_text locale⟩, eq_iff_get?, ?_, ?_⟩
  · rw [← eq_iff_get?]
    exact ⟨encode_injective, congrArg codec.encode⟩
  · intro β action
    refine ⟨change_eq_some_iff, ?_⟩
    rw [Field.change_eq_none_iff, beq_iff_eq, eq_iff_get?]

/-- The order of the locales and a value written over make no difference. -/
example :
    ((of "en" "Shoes").set "de" "Schuh").set "de" "Schuhe" =
      ofList [("de", "Schuhe"), ("en", "Shoes")] := by
  decide

end CatalogSync.LocalizedText
