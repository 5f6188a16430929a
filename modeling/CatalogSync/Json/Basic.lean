import CatalogSync.Data.Binary64

/-!
# JSON values

The document type in which drafts, resources and actions are written. A number without a fraction
or an exponent is an integer, any other number a double: `1` and `1.0` are different values, and
only the first is a version or a count.
-/

namespace CatalogSync

/-- A JSON value. -/
inductive Json where
  /-- The absent value. -/
  | null
  /-- A truth value. -/
  | bool (value : Bool)
  /-- A number written without fraction and exponent. -/
  | int (value : Int)
  /-- Any other number. -/
  | double (value : Binary64)
  /-- A text. -/
  | string (value : String)
  /-- A list of values. -/
  | array (items : List Json)
  /-- Named members; of two members with one name the first counts. -/
  | object (members : List (String × Json))
deriving Inhabited

namespace Json

/-- The members of an object, and none of any other value. -/
def members : Json → List (String × Json)
  | .object members => members
  | _ => []

/-- The member of an object under a name. -/
def get? (value : Json) (name : String) : Option Json := value.members.lookup name

/-- The text of a string value. -/
def asString? : Json → Option String
  | .string value => some value
  | _ => none

/-- The items of an array value. -/
def asArray? : Json → Option (List Json)
  | .array items => some items
  | _ => none

/-- Replaces the members of an object that a second list names, and adds those it lacks. -/
def replaceMembers (value : Json) (fields : List (String × Json)) : Json :=
  .object (fields ++ value.members.filter fun entry => (fields.lookup entry.1).isNone)

end Json

end CatalogSync
