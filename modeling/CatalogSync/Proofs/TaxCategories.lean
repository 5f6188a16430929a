import CatalogSync.Catalog.TaxCategory.Diff
import CatalogSync.Proofs.Performing
import Mathlib.Algebra.Group.Nat.Defs
import Mathlib.Data.List.Forall2

/-!
# Differences of tax categories converge

A rate is replaced unless it agrees with the rate of the draft, so afterwards every rate agrees with
the one of its key. Two rates agree when their amounts are the same number, which an amount that is
no number never is: a draft has to be well-formed for its rates to be settled.

## Main results

* `rates_performs`: the rates of a tax category.
* `foldl_diff`: what all actions for a draft leave.
* `same_of_mem_result`: the rates that are left are the same as those of the draft.
* `agrees_apply`: a tax category is brought into the state of a draft.
* `diff_eq_nil`: a tax category in the state of a draft asks for nothing.
* `apply_diff_collects`: in which order the rates of a draft are collected, and that any order of the
  draft is settled by them.
-/

namespace CatalogSync

namespace TaxRate

variable {rate other : TaxRate}

/-- Rates that agree have one key. -/
theorem key_of_beq (hSame : (rate == other) = true) : rate.key = other.key := by
  have hAgrees : rate.agrees other = true := hSame
  simp only [agrees, Bool.and_eq_true, beq_iff_eq] at hAgrees
  exact hAgrees.1.1.1.1.1

/-- A rate agrees with itself if its amount is a number. -/
theorem beq_self (hNumber : rate.amount.isNaN = false) : (rate == rate) = true := by
  have hAmount : (rate.amount == rate.amount) = true := (Binary64.agrees_self_iff _).mpr hNumber
  show rate.agrees rate = true
  simp only [agrees, hAmount, beq_self_eq_true, Bool.and_self]

/-- Two lists hold the same rates, in any order. -/
def SameRates (left right : List TaxRate) : Prop :=
  ∃ arranged, List.Forall₂ (fun rate same => (rate == same) = true) left arranged ∧
    arranged.Perm right

/-- Two lists hold the same rates if they have the same keys, in any order, and the rates of one key
are the same. -/
theorem sameRates_of_keys {left right : List TaxRate}
    (hKeys : (left.map TaxRate.key).Perm (right.map TaxRate.key))
    (hSame : ∀ rate ∈ left, ∀ wanted ∈ right, rate.key = wanted.key → (rate == wanted) = true) :
    SameRates left right := by
  -- The rates on the right can be arranged by the keys on the left.
  have hRight : List.Forall₂ (fun key rate => key = TaxRate.key rate) (right.map TaxRate.key) right :=
    List.forall₂_map_left_iff.mpr (List.forall₂_same.mpr fun _ _ => rfl)
  obtain ⟨arranged, hArranged, hPerm⟩ := List.perm_comp_forall₂ hKeys hRight
  have hLeft : left.map TaxRate.key = arranged.map TaxRate.key := by
    refine List.forall₂_eq_eq_eq ▸ ?_
    exact List.forall₂_map_right_iff.mpr hArranged
  refine ⟨arranged, KeyedList.forall₂_of_keys hLeft fun rate hRate wanted hWanted => ?_, hPerm⟩
  exact hSame rate hRate wanted (hPerm.mem_iff.mp hWanted)

end TaxRate

namespace TaxCategory

open KeyedList (Policy Regime modifyFirst_append)

variable {taxCategory : TaxCategory} {draft : Draft} {actions : List Action}

/-! ## The rates -/

/-- Rates are removed, and replaced unless they agree. -/
def rateRegime : Regime TaxRate :=
  ⟨true, fun before after => if before == after then before else after⟩

/-- A rate that stands for another one of its key has that key. -/
theorem key_merge {before after : TaxRate} (hKey : before.key = after.key) :
    (rateRegime.merge before after).key = after.key := by
  unfold rateRegime
  dsimp only
  split
  · exact hKey
  · rfl

/-- The remote does with rates what the actions for them say. -/
theorem rates_performs (taxCategory : TaxCategory) :
    ratePolicy.Performs rateRegime perform fun rates => { taxCategory with rates } where
  remove removed rates :=
    Policy.foldl_removeEach TaxRate.key Action.removeTaxRate
      (fun rates => { taxCategory with rates }) (fun _ _ => rfl) removed rates
  add rates rate position := rfl
  change {before after actions} hKey hChange := by
    cases hChange
    refine ⟨key_merge hKey, fun front back hNodup => ?_⟩
    unfold Field.change rateRegime
    dsimp only
    split
    · rfl
    · have hFront : ∀ other ∈ front, ¬ (other.key == after.key) = true := by
        intro other hOther hSame
        have hBefore : other.key = before.key := (beq_iff_eq.mp hSame).trans hKey.symm
        exact Policy.key_ne_of_mem_around hNodup (List.mem_append_left _ hOther) hBefore
      exact congrArg (fun rates => { taxCategory with rates })
        (modifyFirst_append hFront (beq_iff_eq.mpr hKey))
  reorder {order action} hAction := by
    cases hAction

/-! ## The tax category -/

/-- What the actions for a draft leave, before the version is advanced. -/
theorem foldl_diff {old : TaxCategory} (hDiff : diff old draft = .ok actions) :
    actions.foldl perform old =
      { old with
        name := draft.name
        description := draft.description
        rates := ratePolicy.result rateRegime old.rates (draft.rates.getD []) } := by
  obtain ⟨changes, hReconcile, hActions⟩ := Refusal.bind_eq_ok_iff.mp hDiff
  cases hActions
  rw [Policy.reconcile_getD] at hReconcile
  have hNamed := Field.foldl_change (fun name => { old with name })
    (rfl : perform old (.changeName draft.name) = { old with name := draft.name })
  have hDescribed : (Field.setOrClear old.description draft.description (.setDescription <| some ·)
      (.setDescription none)).toList.foldl perform { old with name := draft.name } =
        { old with name := draft.name, description := draft.description } :=
    Field.foldl_setOrClear (fun description => { old with name := draft.name, description })
      (fun _ => rfl) rfl
  have hRates := (rates_performs
    { old with name := draft.name, description := draft.description }).foldl_reconcile hReconcile
  rw [List.foldl_append, List.foldl_append, hNamed, hDescribed, hRates]

/-- The tax category after the actions for a draft. -/
theorem apply_eq {old : TaxCategory} (hDiff : diff old draft = .ok actions) :
    old.apply actions =
      { old with
        version := old.version + 1
        name := draft.name
        description := draft.description
        rates := ratePolicy.result rateRegime old.rates (draft.rates.getD []) } := by
  simp only [apply, foldl_diff hDiff]

/-- A tax category is in the state of a draft: it has the same rates, in any order. -/
structure Agrees (taxCategory : TaxCategory) (draft : Draft) : Prop where
  name : taxCategory.name = draft.name
  description : taxCategory.description = draft.description
  distinct : (taxCategory.rates.map TaxRate.key).Nodup
  /-- No other rates are there. -/
  only : ∀ rate ∈ taxCategory.rates, rate.key ∈ (draft.rates.getD []).map TaxRate.key
  /-- Every rate of the draft is there. -/
  held : ∀ wanted ∈ draft.rates.getD [], ∃ rate ∈ taxCategory.rates, (rate == wanted) = true

/-- The rates of a draft have different keys, and their amounts are numbers. -/
structure Draft.WellFormed (draft : Draft) : Prop where
  rates : ((draft.rates.getD []).map TaxRate.key).Nodup
  amounts : ∀ rate ∈ draft.rates.getD [], rate.amount.isNaN = false

/-- The tax category that is created from a draft is in its state. -/
theorem agrees_ofDraft (hFormed : draft.WellFormed) (id : String) :
    (ofDraft draft id).Agrees draft where
  name := rfl
  description := rfl
  distinct := hFormed.rates
  only _ hRate := List.mem_map_of_mem hRate
  held wanted hWanted := ⟨wanted, hWanted, TaxRate.beq_self (hFormed.amounts wanted hWanted)⟩

/-- The rates of a draft that is not refused have different keys. -/
theorem wellFormed_of_diff {old : TaxCategory} (hDiff : diff old draft = .ok actions)
    (hAmounts : ∀ rate ∈ draft.rates.getD [], rate.amount.isNaN = false) : draft.WellFormed := by
  obtain ⟨changes, hReconcile, -⟩ := Refusal.bind_eq_ok_iff.mp hDiff
  rw [Policy.reconcile_getD] at hReconcile
  exact ⟨(Policy.reconcile_eq_ok_iff.mp hReconcile).2.1, hAmounts⟩

/-- The rates that are left keep the keys of the draft. -/
theorem keepsKeys_rates {old new : List TaxRate} : ratePolicy.KeepsKeys rateRegime old new :=
  fun _ _ _ _ hKey => key_merge hKey

/-- What a rate is merged with is the same rate, if its amount is a number. -/
theorem merge_same {before after : TaxRate} (hNumber : after.amount.isNaN = false) :
    (rateRegime.merge before after == after) = true := by
  unfold rateRegime
  dsimp only
  split
  · rename_i hAgree
    exact hAgree
  · exact TaxRate.beq_self hNumber

/-- The rates that are left are the same as those of the draft. -/
theorem same_of_mem_result {old new : List TaxRate} (hNew : (ratePolicy.keys new).Nodup)
    (hAmounts : ∀ rate ∈ new, rate.amount.isNaN = false) {rate wanted : TaxRate}
    (hRate : rate ∈ ratePolicy.result rateRegime old new) (hWanted : wanted ∈ new)
    (hKey : rate.key = wanted.key) : (rate == wanted) = true := by
  obtain ⟨after, hAfter, hSame, hCases⟩ := Policy.of_mem_result hNew keepsKeys_rates rfl hRate
  obtain rfl := List.inj_on_of_nodup_map hNew hWanted hAfter (hKey.symm.trans hSame)
  rcases hCases with ⟨rfl, -⟩ | ⟨before, -, -, rfl⟩
  · exact TaxRate.beq_self (hAmounts rate hWanted)
  · exact merge_same (hAmounts wanted hWanted)

/-- The actions for a draft bring a tax category into its state. -/
theorem agrees_apply {old : TaxCategory} (hFormed : draft.WellFormed)
    (hDiff : diff old draft = .ok actions) : (old.apply actions).Agrees draft := by
  obtain ⟨changes, hReconcile, -⟩ := Refusal.bind_eq_ok_iff.mp hDiff
  rw [Policy.reconcile_getD] at hReconcile
  obtain ⟨hOld, hNew, -⟩ := Policy.reconcile_eq_ok_iff.mp hReconcile
  rw [apply_eq hDiff]
  refine ⟨rfl, rfl, Policy.nodup_keys_result hOld hNew keepsKeys_rates, fun rate hRate => ?_,
    fun wanted hWanted => ?_⟩
  · exact Policy.mem_keys_of_mem_keys_result hNew keepsKeys_rates rfl (List.mem_map_of_mem hRate)
  · obtain ⟨rate, hRate, hKey⟩ := List.mem_map.mp
      (Policy.mem_keys_result hOld hNew keepsKeys_rates (List.mem_map_of_mem hWanted))
    exact ⟨rate, hRate, same_of_mem_result hNew hFormed.amounts hRate hWanted hKey⟩

/-- A tax category in the state of a draft asks for nothing. -/
theorem diff_eq_nil (hAgrees : taxCategory.Agrees draft) (hFormed : draft.WellFormed) :
    diff taxCategory draft = .ok [] := by
  have hRates : ratePolicy.reconcile taxCategory.rates draft.rates = .ok [] := by
    rw [Policy.reconcile_getD]
    refine Policy.reconcile_eq_nil hAgrees.distinct hFormed.rates
      (Policy.removals_eq_nil hAgrees.only) (fun wanted hWanted => ?_) ?_
    · obtain ⟨rate, hRate, hSame⟩ := hAgrees.held wanted hWanted
      refine ⟨rate, hRate, TaxRate.key_of_beq hSame, ?_⟩
      show Except.ok (Field.change rate wanted _).toList = _
      rw [Field.change_eq_none_iff.mpr hSame, Option.toList_none]
    · unfold Policy.reordering
      split <;> rfl
  simp only [diff, hRates, hAgrees.name, hAgrees.description, Field.change_self,
    Field.setOrClear_self]
  rfl

/-! ## The order of the rates -/

/-- A tax category in the state of a draft is in the state of the draft with its rates in another
order. -/
theorem Agrees.of_perm (hAgrees : taxCategory.Agrees draft) {rates : Option (List TaxRate)}
    (hPerm : (rates.getD []).Perm (draft.rates.getD [])) :
    taxCategory.Agrees { draft with rates } where
  name := hAgrees.name
  description := hAgrees.description
  distinct := hAgrees.distinct
  only rate hRate := (hPerm.map TaxRate.key).mem_iff.mpr (hAgrees.only rate hRate)
  held wanted hWanted := hAgrees.held wanted (hPerm.mem_iff.mp hWanted)

theorem Draft.WellFormed.of_perm (hFormed : draft.WellFormed) {rates : Option (List TaxRate)}
    (hPerm : (rates.getD []).Perm (draft.rates.getD [])) :
    Draft.WellFormed { draft with rates } where
  rates := (hPerm.map TaxRate.key).nodup_iff.mpr hFormed.rates
  amounts rate hRate := hFormed.amounts rate (hPerm.mem_iff.mp hRate)

/-- A tax category holds the rates of a draft: those that it had before stand in their old order, and
the others come behind them. -/
structure Collects (old : TaxCategory) (draft : Draft) (taxCategory : TaxCategory) : Prop where
  name : taxCategory.name = draft.name
  description : taxCategory.description = draft.description
  /-- An old rate that the draft keeps has become the same as the draft's rate of its key. -/
  rates : ∃ kept,
    taxCategory.rates = kept ++ (draft.rates.getD []).filter
        (fun rate => !(old.rates.map TaxRate.key).contains rate.key) ∧
      List.Forall₂ (fun before rate =>
          ∃ wanted ∈ draft.rates.getD [], before.key = wanted.key ∧ (rate == wanted) = true)
        (old.rates.filter fun rate => ((draft.rates.getD []).map TaxRate.key).contains rate.key) kept
  /-- The rates are those of the draft, in another order. -/
  same : TaxRate.SameRates taxCategory.rates (draft.rates.getD [])
  /-- The draft asks for nothing more, whatever the order of its rates. -/
  settled : ∀ rates : Option (List TaxRate), (rates.getD []).Perm (draft.rates.getD []) →
    diff taxCategory { draft with rates } = .ok []

/-- The rates that are left are those of the draft, in another order. -/
theorem sameRates_result {old new : List TaxRate} (hOld : (ratePolicy.keys old).Nodup)
    (hNew : (ratePolicy.keys new).Nodup) (hAmounts : ∀ rate ∈ new, rate.amount.isNaN = false) :
    TaxRate.SameRates (ratePolicy.result rateRegime old new) new :=
  TaxRate.sameRates_of_keys (Policy.keys_result_perm hOld hNew keepsKeys_rates rfl)
    fun _ hRate _ hWanted => same_of_mem_result hNew hAmounts hRate hWanted

/--
The actions for a draft collect its rates, however the old ones were mixed with them. What the
remote assigns stays, except for the version.
-/
theorem apply_diff_collects {old : TaxCategory} (hVersion : old.version.toNat < 2 ^ 64 - 1)
    (hAmounts : ∀ rate ∈ draft.rates.getD [], rate.amount.isNaN = false)
    (hDiff : diff old draft = .ok actions) :
    Collects old draft (old.apply actions) ∧
      (old.apply actions).id = old.id ∧ (old.apply actions).key = old.key ∧
      (old.apply actions).version.toNat = old.version.toNat + 1 := by
  have hFormed := wellFormed_of_diff hDiff hAmounts
  have hAgrees := agrees_apply hFormed hDiff
  have hNext : (old.version + 1).toNat = old.version.toNat + 1 := by
    rw [UInt64.toNat_add, UInt64.toNat_one, Nat.mod_eq_of_lt (Nat.add_lt_of_lt_sub hVersion)]
  obtain ⟨changes, hReconcile, -⟩ := Refusal.bind_eq_ok_iff.mp hDiff
  rw [Policy.reconcile_getD] at hReconcile
  obtain ⟨hOld, hNew, -⟩ := Policy.reconcile_eq_ok_iff.mp hReconcile
  refine ⟨⟨hAgrees.name, hAgrees.description, ?_, ?_, fun rates hPerm => ?_⟩, ?_⟩
  · rw [apply_eq hDiff]
    refine ⟨_, Policy.result_of_unordered rfl rfl, ?_⟩
    refine List.forall₂_map_right_iff.mpr (List.forall₂_same.mpr fun before hBefore => ?_)
    obtain ⟨hMem, hShared⟩ := List.mem_filter.mp hBefore
    obtain ⟨wanted, hWanted, hKey⟩ := List.mem_map.mp (List.contains_iff_mem.mp hShared)
    refine ⟨wanted, hWanted, hKey.symm, ?_⟩
    rw [Policy.changed_of_mem (List.mem_map_of_mem hMem) hNew hWanted hKey]
    exact merge_same (hAmounts wanted hWanted)
  · rw [apply_eq hDiff]
    exact sameRates_result hOld hNew hAmounts
  · exact diff_eq_nil (hAgrees.of_perm hPerm) (hFormed.of_perm hPerm)
  · rw [apply_eq hDiff]
    exact ⟨rfl, rfl, hNext⟩

theorem apply_diff_collects_standard :
    let german : TaxRate := .basic "german" "Standard" ⟨0x3FC851EB851EB852⟩ "DE"
    let french : TaxRate := .basic "french" "Standard" ⟨0x3FC999999999999A⟩ "FR"
    let dutch : TaxRate := .basic "dutch" "Standard" ⟨0x3FC999999999999A⟩ "NL"
    let exempt : TaxRate := .basic "exempt" "Exempt" ⟨0⟩ "DE"
    let italian : TaxRate := .basic "italian" "Standard" ⟨0x3FCC28F5C28F5C29⟩ "IT"
    let reduced : TaxRate := { french with amount := ⟨0x3FAC28F5C28F5C29⟩, includedInPrice := true }
    let old : TaxCategory := ⟨"1", "standard", 4, "Goods", none, [german, french, dutch, exempt]⟩
    let draft : Draft :=
      ⟨some "standard", "All goods", some "Every country",
        some [italian, { exempt with amount := ⟨0x8000000000000000⟩ }, reduced, german]⟩
    let actions : List Action :=
      [ .changeName "All goods", .setDescription (some "Every country"), .removeTaxRate "dutch"
      , .addTaxRate italian, .replaceTaxRate "french" reduced ]
    old.version.toNat < 2 ^ 64 - 1 ∧
      (∀ rate ∈ draft.rates.getD [], rate.amount.isNaN = false) ∧ diff old draft = .ok actions ∧
      (old.apply actions).rates = [german, reduced, exempt, italian] ∧
      Collects old draft (old.apply actions) ∧
      (old.apply actions).id = old.id ∧ (old.apply actions).key = old.key ∧
      (old.apply actions).version.toNat = old.version.toNat + 1 := by
  intro german french dutch exempt italian reduced old draft actions
  have hVersion : old.version.toNat < 2 ^ 64 - 1 := by decide
  have hAmounts : ∀ rate ∈ draft.rates.getD [], rate.amount.isNaN = false := by decide +kernel
  have hDiff : diff old draft = .ok actions := by decide +kernel
  exact ⟨hVersion, hAmounts, hDiff, rfl, apply_diff_collects hVersion hAmounts hDiff⟩

end TaxCategory

end CatalogSync
