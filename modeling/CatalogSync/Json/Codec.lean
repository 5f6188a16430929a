import CatalogSync.Data.KeyMap
import CatalogSync.Json.Basic

/-!
# Codecs

A codec writes the values of a type as JSON and reads them back. Reading answers nothing when the
value does not have the form of the type; why it fails is never told apart.

Three rules hold for every record of this library:

* a member that is not part of the record is passed over;
* an optional member may be missing or null, and either means that it is absent;
* a record may also be given as the list of all its members in the order of their declaration.

A variant of a tagged union is a record with one more member, the tag, which comes first when the
record is given as a list. The tag is the name of the variant. Where the union is itself part of a
tagged value, the tag may also be a number: the place of the variant in its union, from zero.

## Main results

* `Codec.Restores`, `Codec.Faithful`: reading what was written gives back the value.
* `faithful_string`, `faithful_word`, `restores_double_iff`, `restores_list`,
  `faithful_keySet`: the building blocks.
* `decodeOption_of_restores`: a value that may be absent is read back as well.
* `Json.tagged?_tagged`: the tag and the members of a variant are found again.
* `Json.taggedAmong?_of_tagged?`: whatever is tagged by name is read the same where numbers count.
-/

namespace CatalogSync

/-- How the values of a type are written as JSON and read back. -/
structure Codec (α : Type) where
  /-- Writes a value. -/
  encode : α → Json
  /-- Reads a value; nothing when the JSON does not have the form of the type. -/
  decode : Json → Option α

namespace Codec

variable {α β : Type}

/-- A value is read back as it was written. -/
def Restores (codec : Codec α) (value : α) : Prop := codec.decode (codec.encode value) = some value

/-- Reading what was written gives back the value. -/
def Faithful (codec : Codec α) : Prop := ∀ value, codec.decode (codec.encode value) = some value

/-- Texts. -/
def string : Codec String where
  encode := .string
  decode := Json.asString?

/-- Truth values. -/
def bool : Codec Bool where
  encode := .bool
  decode
    | .bool value => some value
    | _ => none

/-- The unsigned 64-bit number that an integer is, if it is one. -/
def word? : Int → Option UInt64
  | .ofNat value => if value < UInt64.size then some (UInt64.ofNat value) else none
  | .negSucc _ => none

/-- Unsigned 64-bit numbers, written as integers. -/
def word : Codec UInt64 where
  encode value := .int value.toNat
  decode
    | .int value => word? value
    | _ => none

/-- Doubles; an integer is read as the double nearest to it. JSON has no infinities and no NaN, so
these are written as null, which is no double. -/
def double : Codec Binary64 where
  encode value := if value.isFinite then .double value else .null
  decode
    | .double value => some value
    | .int value => Binary64.ofInt? value
    | _ => none

/-- Lists. -/
def list (item : Codec α) : Codec (List α) where
  encode values := .array (values.map item.encode)
  decode
    | .array items => items.mapM item.decode
    | _ => none

/-- Sets of keys, written as the increasing list of their members and read from any list. -/
def keySet : Codec KeySet where
  encode keys := .array (keys.toList.map .string)
  decode value := ((list string).decode value).map KeySet.ofList

/-- Writes a value that may be absent; absence is null. -/
def encodeOption (codec : Codec α) : Option α → Json
  | none => .null
  | some value => codec.encode value

/-- Reads a value that may be null. -/
def decodeOption (codec : Codec α) : Json → Option (Option α)
  | .null => some none
  | value => (codec.decode value).map some

/-- Reads a member that has to be there. -/
def required (codec : Codec α) (fields : List (String × Json)) (name : String) : Option α :=
  (fields.lookup name).bind codec.decode

/-- Reads a member that may be missing or null. -/
def optional (codec : Codec α) (fields : List (String × Json)) (name : String) :
    Option (Option α) :=
  codec.decodeOption ((fields.lookup name).getD .null)

/-! ## Members and values that may be absent -/

/-- A member is found at the head of the record. -/
theorem required_self {codec : Codec α} {fields : List (String × Json)} {name : String}
    {json : Json} {value : α} (hDecode : codec.decode json = some value) :
    codec.required ((name, json) :: fields) name = some value := by
  simp [required, hDecode]

/-- Members with other names are passed over. -/
theorem required_skip {codec : Codec α} {fields : List (String × Json)} {name other : String}
    {json : Json} (hNe : name ≠ other) :
    codec.required ((other, json) :: fields) name = codec.required fields name := by
  simp [required, List.lookup_cons, beq_false_of_ne hNe]

/-- Whether the values of a codec are never written as null, which stands for an absent value. -/
def NeverNull (codec : Codec α) : Prop := ∀ value, codec.encode value ≠ .null

/-- A value that may be absent is read back if it is when it is there, and is never written as
null then. -/
theorem decodeOption_of_restores {codec : Codec α} (hNull : codec.NeverNull) {value : Option α}
    (hRestores : ∀ given ∈ value, codec.Restores given) :
    codec.decodeOption (codec.encodeOption value) = some value := by
  cases value with
  | none => rfl
  | some value =>
      show codec.decodeOption (codec.encode value) = some (some value)
      have hDecode : codec.decode (codec.encode value) = some value := hRestores value rfl
      have hNotNull := hNull value
      cases hJson : codec.encode value with
      | null => exact absurd hJson hNotNull
      | _ =>
          rw [hJson] at hDecode
          simp [decodeOption, hDecode]

/-- A value that may be absent is read back if its codec never writes null. -/
theorem decodeOption_encodeOption {codec : Codec α} (hFaithful : codec.Faithful)
    (hNull : codec.NeverNull) (value : Option α) :
    codec.decodeOption (codec.encodeOption value) = some value :=
  decodeOption_of_restores hNull fun given _ => hFaithful given

/-- A member that may be null is found at the head of the record. -/
theorem optional_self {codec : Codec α} {fields : List (String × Json)} {name : String}
    {json : Json} {value : Option α} (hDecode : codec.decodeOption json = some value) :
    codec.optional ((name, json) :: fields) name = some value := by
  simp [optional, hDecode]

/-- Members with other names are passed over. -/
theorem optional_skip {codec : Codec α} {fields : List (String × Json)} {name other : String}
    {json : Json} (hNe : name ≠ other) :
    codec.optional ((other, json) :: fields) name = codec.optional fields name := by
  simp [optional, List.lookup_cons, beq_false_of_ne hNe]

/-! ## Texts and truth values -/

theorem faithful_string : string.Faithful := fun _ => rfl

theorem neverNull_string : string.NeverNull := fun _ hNull => nomatch hNull

section Members

variable {fields : List (String × Json)} {name : String}

theorem required_string {value : String} :
    string.required ((name, .string value) :: fields) name = some value := required_self rfl

theorem required_bool {value : Bool} :
    bool.required ((name, .bool value) :: fields) name = some value := required_self rfl

theorem optional_string {value : Option String} :
    string.optional ((name, string.encodeOption value) :: fields) name = some value :=
  optional_self (decodeOption_encodeOption faithful_string neverNull_string value)

end Members

/-! ## Numbers, lists and sets -/

theorem word?_toNat (value : UInt64) : word? value.toNat = some value :=
  (if_pos value.toNat_lt_size).trans (congrArg some UInt64.ofNat_toNat)

theorem faithful_word : word.Faithful := by
  intro value
  simp only [word]
  exact word?_toNat value

/-- Exactly the finite doubles are read back. -/
theorem restores_double_iff {value : Binary64} :
    double.Restores value ↔ value.isFinite = true := by
  unfold Restores double
  by_cases hFinite : value.isFinite = true
  · simp [hFinite]
  · simp [hFinite]

/-- A list is read back if each of its items is. -/
theorem restores_list {item : Codec α} {values : List α}
    (hItems : ∀ value ∈ values, item.Restores value) : (list item).Restores values := by
  show (values.map item.encode).mapM item.decode = some values
  induction values with
  | nil => rfl
  | cons value rest ih =>
      have hFirst : item.decode (item.encode value) = some value :=
        hItems value (List.mem_cons_self ..)
      have hRest := ih fun other hOther => hItems other (List.mem_cons_of_mem _ hOther)
      simp [hFirst, hRest]

theorem faithful_list {item : Codec α} (hItem : item.Faithful) : (list item).Faithful :=
  fun _ => restores_list fun value _ => hItem value

theorem neverNull_list {item : Codec α} : (list item).NeverNull := fun _ hNull => nomatch hNull

theorem faithful_keySet : keySet.Faithful := by
  intro keys
  show ((list string).decode ((list string).encode keys.toList)).map KeySet.ofList = some keys
  rw [faithful_list faithful_string, Option.map_some]
  refine congrArg some (KeySet.ext fun key => ?_)
  rw [KeySet.mem_ofList, KeySet.mem_toList]

end Codec

namespace Json

/-- The members of a record: those of an object, or a list of the right length by position. -/
def record? (names : List String) : Json → Option (List (String × Json))
  | .object members => some members
  | .array items => if items.length = names.length then some (names.zip items) else none
  | _ => none

/-- A variant of a tagged union: its tag and its other members. -/
def tagged (tag name : String) (members : List (String × Json)) : Json :=
  .object ((tag, .string name) :: members)

/-- The name that a tag gives: the tag itself, or the name at its place in a list of names. -/
def nameAmong? (names : List String) : Json → Option String
  | .string name => some name
  | .int (.ofNat place) => names[place]?
  | _ => none

/-- The name of a variant, read from its tag, and the record of its other members. -/
def taggedBy? (name? : Json → Option String) (tag : String) : Json → Option (String × Json)
  | .object members => do
      return (← name? (← members.lookup tag), .object members)
  | .array (first :: items) => do
      return (← name? first, .array items)
  | _ => none

/-- The name of a variant that is tagged by name, and the record of its other members. -/
def tagged? (tag : String) : Json → Option (String × Json) := taggedBy? asString? tag

/-- The name of a variant that is tagged by name or by number, and the record of its other
members. -/
def taggedAmong? (names : List String) (tag : String) : Json → Option (String × Json) :=
  taggedBy? (nameAmong? names) tag

/-- The tag of a variant is found again, and its members with it. -/
theorem tagged?_tagged {tag name : String} {members : List (String × Json)} :
    (tagged tag name members).tagged? tag =
      some (name, .object ((tag, .string name) :: members)) := by
  simp [tagged, tagged?, taggedBy?, asString?]

/-- A name is read the same, whether or not numbers count. -/
theorem nameAmong?_of_asString? {names : List String} {value : Json} {name : String}
    (hName : value.asString? = some name) : value.nameAmong? names = some name := by
  cases value with
  | string text => exact hName
  | _ => cases hName

/-- Whatever is tagged by name is read the same where numbers count as well. -/
theorem taggedAmong?_of_tagged? {names : List String} {tag : String} {value : Json}
    {found : String × Json} (hFound : value.tagged? tag = some found) :
    value.taggedAmong? names tag = some found := by
  have hStep : ∀ (given : Json) (rest : Json),
      (given.asString?.bind fun name => some (name, rest)) = some found →
        ((given.nameAmong? names).bind fun name => some (name, rest)) = some found := by
    intro given rest hGiven
    obtain ⟨name, hName, hPair⟩ := Option.bind_eq_some_iff.mp hGiven
    rw [nameAmong?_of_asString? hName]
    exact hPair
  cases value with
  | object members =>
      obtain ⟨given, hGiven, hRest⟩ := Option.bind_eq_some_iff.mp hFound
      exact Option.bind_eq_some_iff.mpr ⟨given, hGiven, hStep given (.object members) hRest⟩
  | array items =>
      cases items with
      | nil => cases hFound
      | cons first items => exact hStep first (.array items) hFound
  | _ => cases hFound

end Json

end CatalogSync
