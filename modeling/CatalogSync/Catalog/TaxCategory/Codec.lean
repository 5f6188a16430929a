import CatalogSync.Catalog.TaxCategory.Basic

/-!
# The written form of tax categories

Amounts are numbers of a document, which knows no infinities and no NaN: what holds such an amount
is written, but cannot be read again.

## Main results

* `Draft.restores_codec`, `restores_codec`, `Action.restores_codec`: drafts, tax categories and
  actions with finite amounts are read back as they were written.
-/

namespace CatalogSync

/-- How tax rates are written. -/
def TaxRate.codec : Codec TaxRate where
  encode rate := .object
    [ ("key", .string rate.key)
    , ("name", .string rate.name)
    , ("amount", Codec.double.encode rate.amount)
    , ("includedInPrice", .bool rate.includedInPrice)
    , ("country", .string rate.country)
    , ("state", Codec.string.encodeOption rate.state) ]
  decode value := do
    let fields ← value.record? ["key", "name", "amount", "includedInPrice", "country", "state"]
    return { key := ← Codec.string.required fields "key"
             name := ← Codec.string.required fields "name"
             amount := ← Codec.double.required fields "amount"
             includedInPrice := ← Codec.bool.required fields "includedInPrice"
             country := ← Codec.string.required fields "country"
             state := ← Codec.string.optional fields "state" }

/-- Whether the amount of a rate is a finite number. -/
def TaxRate.IsFinite (rate : TaxRate) : Prop := rate.amount.isFinite = true

/-- A rate with a finite amount is read back as it was written. -/
theorem TaxRate.restores_codec {rate : TaxRate} (hFinite : rate.IsFinite) :
    codec.Restores rate := by
  simp only [Codec.Restores, codec, Json.record?, Option.bind_eq_bind, Option.bind_some]
  simp (disch := decide) only [Codec.optional_skip, Codec.required_skip, Codec.required_string,
    Codec.required_bool, Codec.required_self (Codec.restores_double_iff.mpr hFinite),
    Codec.optional_string]
  rfl

namespace TaxCategory

/-- How drafts of tax categories are written. -/
def Draft.codec : Codec Draft where
  encode draft := .object
    [ ("key", Codec.string.encodeOption draft.key)
    , ("name", .string draft.name)
    , ("description", Codec.string.encodeOption draft.description)
    , ("rates", (Codec.list TaxRate.codec).encodeOption draft.rates) ]
  decode value := do
    let fields ← value.record? ["key", "name", "description", "rates"]
    return { key := ← Codec.string.optional fields "key"
             name := ← Codec.string.required fields "name"
             description := ← Codec.string.optional fields "description"
             rates := ← (Codec.list TaxRate.codec).optional fields "rates" }

/-- Whether all amounts of a draft are finite numbers. -/
def Draft.IsFinite (draft : Draft) : Prop :=
  ∀ rates ∈ draft.rates, ∀ rate ∈ rates, rate.IsFinite

/-- A draft with finite amounts is read back as it was written. -/
theorem Draft.restores_codec {draft : Draft} (hFinite : draft.IsFinite) :
    Draft.codec.Restores draft := by
  have hRates := Codec.decodeOption_of_restores Codec.neverNull_list fun rates hGiven =>
    Codec.restores_list fun rate hRate => TaxRate.restores_codec (hFinite rates hGiven rate hRate)
  simp only [Codec.Restores, Draft.codec, Json.record?, Option.bind_eq_bind, Option.bind_some]
  simp (disch := decide) only [Codec.optional_skip, Codec.required_skip, Codec.required_string,
    Codec.optional_string, Codec.optional_self hRates]
  rfl

/-- How tax categories are written. -/
def codec : Codec TaxCategory where
  encode taxCategory := .object
    [ ("id", .string taxCategory.id)
    , ("key", .string taxCategory.key)
    , ("version", Codec.word.encode taxCategory.version)
    , ("name", .string taxCategory.name)
    , ("description", Codec.string.encodeOption taxCategory.description)
    , ("rates", (Codec.list TaxRate.codec).encode taxCategory.rates) ]
  decode value := do
    let fields ← value.record? ["id", "key", "version", "name", "description", "rates"]
    return { id := ← Codec.string.required fields "id"
             key := ← Codec.string.required fields "key"
             version := ← Codec.word.required fields "version"
             name := ← Codec.string.required fields "name"
             description := ← Codec.string.optional fields "description"
             rates := ← (Codec.list TaxRate.codec).required fields "rates" }

/-- Whether all amounts of a tax category are finite numbers. -/
def IsFinite (taxCategory : TaxCategory) : Prop := ∀ rate ∈ taxCategory.rates, rate.IsFinite

/-- A tax category with finite amounts is read back as it was written. -/
theorem restores_codec {taxCategory : TaxCategory} (hFinite : taxCategory.IsFinite) :
    codec.Restores taxCategory := by
  have hRates := Codec.restores_list fun rate hRate => TaxRate.restores_codec (hFinite rate hRate)
  simp only [Codec.Restores, codec, Json.record?, Option.bind_eq_bind, Option.bind_some]
  simp (disch := decide) only [Codec.optional_skip, Codec.required_skip, Codec.required_string,
    Codec.required_self (Codec.faithful_word _), Codec.optional_string, Codec.required_self hRates]
  rfl

/-- How actions on tax categories are written. -/
def Action.codec : Codec Action where
  encode
    | .changeName name => .tagged "action" "changeName" [("name", .string name)]
    | .setDescription description =>
        .tagged "action" "setDescription"
          [("description", Codec.string.encodeOption description)]
    | .removeTaxRate taxRateKey =>
        .tagged "action" "removeTaxRate" [("taxRateKey", .string taxRateKey)]
    | .addTaxRate taxRate =>
        .tagged "action" "addTaxRate" [("taxRate", TaxRate.codec.encode taxRate)]
    | .replaceTaxRate taxRateKey taxRate =>
        .tagged "action" "replaceTaxRate"
          [("taxRateKey", .string taxRateKey), ("taxRate", TaxRate.codec.encode taxRate)]
  decode value := do
    let (action, rest) ← value.tagged? "action"
    match action with
    | "changeName" =>
        return .changeName (← Codec.string.required (← rest.record? ["name"]) "name")
    | "setDescription" =>
        return .setDescription
          (← Codec.string.optional (← rest.record? ["description"]) "description")
    | "removeTaxRate" =>
        return .removeTaxRate
          (← Codec.string.required (← rest.record? ["taxRateKey"]) "taxRateKey")
    | "addTaxRate" =>
        return .addTaxRate (← TaxRate.codec.required (← rest.record? ["taxRate"]) "taxRate")
    | "replaceTaxRate" =>
        let fields ← rest.record? ["taxRateKey", "taxRate"]
        return .replaceTaxRate (← Codec.string.required fields "taxRateKey")
          (← TaxRate.codec.required fields "taxRate")
    | _ => none

/-- Whether the amount that an action sets is a finite number. -/
def Action.IsFinite : Action → Prop
  | .addTaxRate taxRate => taxRate.IsFinite
  | .replaceTaxRate _ taxRate => taxRate.IsFinite
  | _ => True

/-- An action with a finite amount is read back as it was written: the tag names the variant, and
the reader of the variant finds the members that its writer put behind the tag. -/
theorem Action.restores_codec {action : Action} (hFinite : action.IsFinite) :
    Action.codec.Restores action := by
  cases action with
  | addTaxRate taxRate =>
      have hRate : TaxRate.codec.decode (TaxRate.codec.encode taxRate) = some taxRate :=
        TaxRate.restores_codec hFinite
      simp only [Codec.Restores, Action.codec, Json.tagged?_tagged, Option.bind_eq_bind,
        Option.bind_some, Json.record?]
      simp (disch := decide) only [Codec.required_skip, Codec.required_self hRate]
      rfl
  | replaceTaxRate taxRateKey taxRate =>
      have hRate : TaxRate.codec.decode (TaxRate.codec.encode taxRate) = some taxRate :=
        TaxRate.restores_codec hFinite
      simp only [Codec.Restores, Action.codec, Json.tagged?_tagged, Option.bind_eq_bind,
        Option.bind_some, Json.record?]
      simp (disch := decide) only [Codec.required_skip, Codec.required_string,
        Codec.required_self hRate]
      rfl
  | _ =>
      simp only [Codec.Restores, Action.codec, Json.tagged?_tagged, Option.bind_eq_bind,
        Option.bind_some, Json.record?]
      simp (disch := decide) only [Codec.required_skip, Codec.optional_skip, Codec.required_string,
        Codec.optional_string]
      rfl

end TaxCategory

end CatalogSync
