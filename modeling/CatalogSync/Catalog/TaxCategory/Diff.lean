import CatalogSync.Catalog.TaxCategory.Basic
import CatalogSync.Field
import CatalogSync.KeyedList.Reconcile

/-!
# Differences of tax categories

The rates are reconciled by key. Their order is of no account, so no action ever reorders them.
-/

namespace CatalogSync.TaxCategory

open KeyedList (Policy)

/-- The policy of the rates of a tax category. -/
def ratePolicy : Policy TaxRate Action where
  collection := "tax rates"
  key := TaxRate.key
  remove removed := removed.map fun rate => .removeTaxRate rate.key
  change old new := .ok (Field.change old new (.replaceTaxRate new.key new)).toList
  add rate _ := .addTaxRate rate

/-- The actions that bring a tax category into the state of a draft. -/
def diff (old : TaxCategory) (new : Draft) : Except Refusal (List Action) := do
  let renamed := (Field.change old.name new.name (.changeName new.name)).toList
  let described := (Field.setOrClear old.description new.description (.setDescription <| some ·)
    (.setDescription none)).toList
  return renamed ++ described ++ (← ratePolicy.reconcile old.rates new.rates)

end CatalogSync.TaxCategory
