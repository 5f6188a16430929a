import CatalogSync.Json.Codec
import CatalogSync.KeyedList.Arrange

/-!
# Tax categories

A tax category holds rates that are told apart by their keys and have no order of their own. A
changed rate is replaced as a whole.
-/

namespace CatalogSync

open KeyedList (modifyFirst)

/-- One rate of a tax category. -/
structure TaxRate where
  /-- The key, which tells the rate apart within its tax category. -/
  key : String
  /-- The name. -/
  name : String
  /-- The share of the price that is tax. -/
  amount : Binary64
  /-- Whether prices include the tax already. -/
  includedInPrice : Bool
  /-- The code of the country. -/
  country : String
  /-- The state within the country. -/
  state : Option String
deriving DecidableEq, Repr

namespace TaxRate

/-- A rate that prices do not include, valid in the whole country. -/
def basic (key name : String) (amount : Binary64) (country : String) : TaxRate :=
  { key, name, amount, includedInPrice := false, country, state := none }

/-- Whether two rates are the same; their amounts are compared as numbers. -/
def agrees (left right : TaxRate) : Bool :=
  left.key == right.key && left.name == right.name && left.amount == right.amount
    && left.includedInPrice == right.includedInPrice && left.country == right.country
    && left.state == right.state

instance : BEq TaxRate := ⟨agrees⟩

end TaxRate

/-- A tax category as the remote holds it. -/
structure TaxCategory where
  /-- The identifier given by the remote. -/
  id : String
  /-- The key of the tax category. -/
  key : String
  /-- The version, advanced by every update. -/
  version : UInt64
  /-- The name. -/
  name : String
  /-- The description. -/
  description : Option String
  /-- The rates, in the order in which they came to be. -/
  rates : List TaxRate
deriving DecidableEq, Repr

namespace TaxCategory

/-- The desired state of a tax category. -/
structure Draft where
  /-- The key of the tax category. -/
  key : Option String
  /-- The name. -/
  name : String
  /-- The description; an absent one is cleared. -/
  description : Option String
  /-- The rates in any order; an absent list removes all of them. -/
  rates : Option (List TaxRate)
deriving DecidableEq, Repr

/-- A single change of a tax category. -/
inductive Action where
  /-- Replaces the name. -/
  | changeName (name : String)
  /-- Sets or clears the description. -/
  | setDescription (description : Option String)
  /-- Removes a rate. -/
  | removeTaxRate (taxRateKey : String)
  /-- Adds a rate. -/
  | addTaxRate (taxRate : TaxRate)
  /-- Replaces the rate with a key. -/
  | replaceTaxRate (taxRateKey : String) (taxRate : TaxRate)
deriving DecidableEq, Repr

/-- A draft without description and rates. -/
def Draft.basic (key name : String) : Draft :=
  { key := some key, name, description := none, rates := none }

/-- The tax category that the remote creates from a draft. -/
def ofDraft (draft : Draft) (id : String) : TaxCategory where
  id
  key := draft.key.getD ""
  version := 1
  name := draft.name
  description := draft.description
  rates := draft.rates.getD []

/-- The tax category after one action, in the same version. -/
def perform (taxCategory : TaxCategory) : Action → TaxCategory
  | .changeName name => { taxCategory with name }
  | .setDescription description => { taxCategory with description }
  | .removeTaxRate taxRateKey =>
      { taxCategory with rates := taxCategory.rates.filter fun rate => rate.key != taxRateKey }
  | .addTaxRate taxRate => { taxCategory with rates := taxCategory.rates ++ [taxRate] }
  | .replaceTaxRate taxRateKey taxRate =>
      { taxCategory with
        rates :=
          modifyFirst (fun rate => rate.key == taxRateKey) (fun _ => taxRate) taxCategory.rates }

/-- The tax category after a list of actions, in its next version. -/
def apply (taxCategory : TaxCategory) (actions : List Action) : TaxCategory :=
  let changed := actions.foldl perform taxCategory
  { changed with version := changed.version + 1 }

end TaxCategory

end CatalogSync
