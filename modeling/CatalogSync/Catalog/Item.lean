import CatalogSync.Field
import CatalogSync.Json.Codec
import CatalogSync.Refusal

/-!
# Items

The smallest kind of resource: a name, and a draft that may require any number of other resources.
Names that start with an exclamation mark are reserved.

## Main results

* `Draft.faithful_codec`, `faithful_codec`, `Action.faithful_codec`: drafts, items and actions are
  read back as they were written.
-/

namespace CatalogSync

/-- An item as the remote holds it. -/
structure Item where
  /-- The identifier given by the remote. -/
  id : String
  /-- The key of the item. -/
  key : String
  /-- The version, advanced by every update. -/
  version : UInt64
  /-- The name. -/
  name : String
deriving DecidableEq, Repr

namespace Item

/-- The desired state of an item. -/
structure Draft where
  /-- The key of the item. -/
  key : Option String
  /-- The name. -/
  name : String
  /-- The keys of the resources that have to exist first. -/
  requires : KeySet
deriving DecidableEq, Repr

/-- A single change of an item. -/
inductive Action where
  /-- Replaces the name. -/
  | rename (name : String)
deriving DecidableEq, Repr

/-- The item that the remote creates from a draft. -/
def ofDraft (draft : Draft) (id : String) : Item where
  id
  key := draft.key.getD ""
  version := 1
  name := draft.name

/-- The item after one action, in the same version. -/
def perform (item : Item) : Action → Item
  | .rename name => { item with name }

/-- The item after a list of actions, in its next version. -/
def apply (item : Item) (actions : List Action) : Item :=
  let changed := actions.foldl perform item
  { changed with version := changed.version + 1 }

/-- The actions that bring an item into the state of a draft. -/
def diff (old : Item) (new : Draft) : Except Refusal (List Action) :=
  if new.name.toList.head? = some '!' then
    .error (.unsupportedChange "name" "reserved prefix")
  else .ok (Field.change old.name new.name (.rename new.name)).toList

/-- How drafts of items are written. -/
def Draft.codec : Codec Draft where
  encode draft := .object
    [ ("key", Codec.string.encodeOption draft.key)
    , ("name", .string draft.name)
    , ("requires", Codec.keySet.encode draft.requires) ]
  decode value := do
    let fields ← value.record? ["key", "name", "requires"]
    return { key := ← Codec.string.optional fields "key"
             name := ← Codec.string.required fields "name"
             requires := ← Codec.keySet.required fields "requires" }

/-- A draft is read back as it was written. -/
theorem Draft.faithful_codec : Draft.codec.Faithful := by
  intro draft
  simp only [Draft.codec, Json.record?, Option.bind_eq_bind, Option.bind_some]
  simp (disch := decide) only [Codec.required_skip, Codec.optional_string, Codec.required_string,
    Codec.required_self (Codec.faithful_keySet _)]
  rfl

/-- How items are written. -/
def codec : Codec Item where
  encode item := .object
    [ ("id", .string item.id)
    , ("key", .string item.key)
    , ("version", Codec.word.encode item.version)
    , ("name", .string item.name) ]
  decode value := do
    let fields ← value.record? ["id", "key", "version", "name"]
    return { id := ← Codec.string.required fields "id"
             key := ← Codec.string.required fields "key"
             version := ← Codec.word.required fields "version"
             name := ← Codec.string.required fields "name" }

/-- An item is read back as it was written. -/
theorem faithful_codec : codec.Faithful := by
  intro item
  simp only [codec, Json.record?, Option.bind_eq_bind, Option.bind_some]
  simp (disch := decide) only [Codec.required_skip, Codec.required_string,
    Codec.required_self (Codec.faithful_word _)]
  rfl

/-- How actions on items are written. -/
def Action.codec : Codec Action where
  encode
    | .rename name => .tagged "action" "rename" [("name", .string name)]
  decode value := do
    let (action, rest) ← value.tagged? "action"
    match action with
    | "rename" => return .rename (← Codec.string.required (← rest.record? ["name"]) "name")
    | _ => none

/-- An action is read back as it was written. -/
theorem Action.faithful_codec : Action.codec.Faithful := by
  rintro ⟨name⟩
  simp only [Action.codec, Json.tagged?_tagged, Option.bind_eq_bind, Option.bind_some,
    Json.record?]
  simp (disch := decide) only [Codec.required_skip, Codec.required_string]
  rfl

end Item

end CatalogSync
