import CatalogSync.Catalog.CustomType.Diff
import CatalogSync.Proofs.Omitting
import CatalogSync.Proofs.ProductTypes
import CatalogSync.Proofs.TaxCategories

/-!
# Which lists ask for nothing

One reconciliation serves five kinds of lists, and each kind has its own notion of what makes no
difference. The enum values of an attribute have to be the same, one after another. The enum values
of a field can be neither removed nor relabelled, so it is enough that the wanted keys are there in
the wanted order. The rates of a tax category have no order, so any arrangement of them will do.

That nothing is asked for tells three things apart: nothing has to be removed, every new element is
there and unchanged, and no reordering is needed. What these come to depends on which actions a
policy has.

## Main results

* `KeyedList.Policy.reconcile_eq_nil_iff`: the three things, for any policy.
* `KeyedList.Policy.reconcile_eq_nil_iff_eq`: lists that have to be the same.
* `KeyedList.Policy.reconcile_eq_nil_iff_sublist`: lists that only grow.
* `TaxCategory.reconcile_eq_nil_iff_same`: lists without an order.
* `Discerns.asks_nothing_iff`: each kind of list discerns exactly its own notion of no change.
-/

namespace CatalogSync

namespace KeyedList.Policy

variable {ε α : Type} {policy : Policy ε α} {old new : List ε}

/-- Nothing is asked for exactly if there is nothing to remove, every new element is there and
unchanged, and no reordering is needed. -/
theorem reconcile_eq_nil_iff (hOld : (policy.keys old).Nodup) (hNew : (policy.keys new).Nodup) :
    policy.reconcile old (some new) = .ok [] ↔
      policy.removals old new = [] ∧
        (∀ after ∈ new, ∃ before ∈ old, policy.key before = policy.key after ∧
          policy.change before after = .ok []) ∧
        policy.reordering old new = [] := by
  constructor
  · intro hNothing
    obtain ⟨-, -, changed, hChanges, hActions⟩ := reconcile_eq_ok_iff.mp hNothing
    obtain ⟨hOthers, hReordering⟩ := List.append_eq_nil_iff.mp hActions.symm
    obtain ⟨hFirst, hChanged⟩ := List.append_eq_nil_iff.mp hOthers
    obtain ⟨hRemovals, hAdditions⟩ := List.append_eq_nil_iff.mp hFirst
    rw [hChanged] at hChanges
    refine ⟨hRemovals, fun after hAfter => ?_, hReordering⟩
    obtain ⟨before, hBefore, hKey⟩ := List.mem_map.mp (mem_keys_of_additions hAdditions hAfter)
    exact ⟨before, hBefore, hKey, change_eq_nil_of_changes hChanges hOld hBefore hAfter hKey⟩
  · rintro ⟨hRemovals, hHeld, hReordering⟩
    exact reconcile_eq_nil hOld hNew hRemovals hHeld hReordering

/-- A policy that can reorder leaves the order alone if no new key is missing and the new keys stand
in the new order. -/
theorem reordering_eq_nil_iff (hReorders : (policy.reorder new).isSome = true)
    (hHeld : ∀ key ∈ policy.keys new, key ∈ policy.keys old) :
    policy.reordering old new = [] ↔
      (policy.keys old).filter (policy.keys new).contains = policy.keys new := by
  refine ⟨fun hNone => ?_, reordering_eq_nil⟩
  by_contra hOther
  obtain ⟨action, hAction⟩ := Option.isSome_iff_exists.mp hReorders
  rw [reordering, outOfOrder_of_held hHeld, if_pos (bne_iff_ne.mpr hOther), hAction] at hNone
  cases hNone

/-- What holds each new element has all new keys. -/
theorem keys_of_held {R : ε → ε → Prop}
    (hHeld : ∀ after ∈ new, ∃ before ∈ old, policy.key before = policy.key after ∧ R before after) :
    ∀ key ∈ policy.keys new, key ∈ policy.keys old := by
  intro key hKey
  obtain ⟨after, hAfter, rfl⟩ := List.mem_map.mp hKey
  obtain ⟨before, hBefore, hSame, -⟩ := hHeld after hAfter
  exact hSame ▸ List.mem_map_of_mem hBefore

/-- A remote that can do everything is asked for nothing only if the lists are the same. -/
theorem reconcile_eq_nil_iff_eq (hRemove : ∀ removed, removed ≠ [] → policy.remove removed ≠ [])
    (hChange : ∀ before after, policy.key before = policy.key after →
      (policy.change before after = .ok [] ↔ before = after))
    (hReorders : ∀ list, (policy.reorder list).isSome = true)
    (hOld : (policy.keys old).Nodup) (hNew : (policy.keys new).Nodup) :
    policy.reconcile old (some new) = .ok [] ↔ old = new := by
  constructor
  · intro hNothing
    obtain ⟨hRemovals, hHeld, hReordering⟩ := (reconcile_eq_nil_iff hOld hNew).mp hNothing
    have hKeys := (reordering_eq_nil_iff (hReorders new) (keys_of_held hHeld)).mp hReordering
    have hAll : (policy.keys old).filter (policy.keys new).contains = policy.keys old := by
      refine List.filter_eq_self.mpr fun key hKey => ?_
      obtain ⟨element, hElement, rfl⟩ := List.mem_map.mp hKey
      exact List.contains_iff_mem.mpr ((removals_eq_nil_iff hRemove).mp hRemovals element hElement)
    have hUnchanged : ∀ after ∈ new, after ∈ old := by
      intro after hAfter
      obtain ⟨before, hBefore, hKey, hSame⟩ := hHeld after hAfter
      exact (hChange before after hKey).mp hSame ▸ hBefore
    exact (eq_of_keys hUnchanged (hKeys.symm.trans hAll) hOld).symm
  · rintro rfl
    exact reconcile_self hOld fun element _ => (hChange element element rfl).mpr rfl

/-- A remote that can only add and reorder is asked for nothing if the new keys are among the old
ones, in the new order. -/
theorem reconcile_eq_nil_iff_sublist (hRemove : ∀ removed, policy.remove removed = [])
    (hChange : ∀ before after, policy.change before after = .ok [])
    (hReorders : ∀ list, (policy.reorder list).isSome = true)
    (hOld : (policy.keys old).Nodup) (hNew : (policy.keys new).Nodup) :
    policy.reconcile old (some new) = .ok [] ↔ (policy.keys new).Sublist (policy.keys old) := by
  constructor
  · intro hNothing
    obtain ⟨-, hHeld, hReordering⟩ := (reconcile_eq_nil_iff hOld hNew).mp hNothing
    rw [← (reordering_eq_nil_iff (hReorders new) (keys_of_held hHeld)).mp hReordering]
    exact List.filter_sublist
  · intro hSublist
    have hHeld : ∀ after ∈ new, ∃ before ∈ old, policy.key before = policy.key after ∧
        policy.change before after = .ok [] := by
      intro after hAfter
      obtain ⟨before, hBefore, hKey⟩ := List.mem_map.mp (hSublist.subset (List.mem_map_of_mem hAfter))
      exact ⟨before, hBefore, hKey, hChange before after⟩
    have hRemovals : policy.removals old new = [] := by
      unfold removals
      split
      · rfl
      · exact hRemove _
    -- Of the old keys, the new ones are those that stand there in the new order.
    have hShared : (policy.keys new).Sublist ((policy.keys old).filter (policy.keys new).contains) := by
      have hFiltered := hSublist.filter (policy.keys new).contains
      rwa [List.filter_eq_self.mpr fun _ hKey => List.contains_iff_mem.mpr hKey] at hFiltered
    have hKeys := eq_of_sublist_of_subset hShared (hOld.filter _) fun key hKey =>
      List.contains_iff_mem.mp (List.mem_filter.mp hKey).2
    exact reconcile_eq_nil hOld hNew hRemovals hHeld (reordering_eq_nil hKeys.symm)

end KeyedList.Policy

/-! ## The enum values of an attribute -/

namespace ProductType

/-- Enum values that are removed, relabelled and reordered ask for nothing only if they are the
same. -/
theorem valuePolicy_eq_nil_iff {Label : Type} [DecidableEq Label] {collection : String}
    {remove : List String → Action} {relabel add : EnumValue Label → Action}
    {reorder : List (EnumValue Label) → Action} {old new : List (EnumValue Label)}
    (hOld : (old.map EnumValue.key).Nodup) (hNew : (new.map EnumValue.key).Nodup) :
    (valuePolicy collection remove relabel add reorder).reconcile old (some new) = .ok [] ↔
      old = new := by
  refine KeyedList.Policy.reconcile_eq_nil_iff_eq (fun removed _ => List.cons_ne_nil _ _)
    (fun before after hKey => ?_) (fun list => rfl) hOld hNew
  show Except.ok (Field.change before.label after.label _).toList = _ ↔ _
  rw [Except.ok.injEq, Option.toList_eq_nil_iff, Field.change_eq_none_iff, beq_iff_eq]
  constructor
  · exact fun hLabel => congrArg₂ EnumValue.mk hKey hLabel
  · exact fun hSame => congrArg EnumValue.label hSame

end ProductType

/-! ## The rates of a tax category -/

namespace TaxCategory

open KeyedList (Policy)

/-- Rates ask for nothing exactly if they are the same, in any order. -/
theorem reconcile_eq_nil_iff_same {old new : List TaxRate} (hOld : (ratePolicy.keys old).Nodup)
    (hNew : (ratePolicy.keys new).Nodup) :
    ratePolicy.reconcile old (some new) = .ok [] ↔ TaxRate.SameRates old new := by
  have hChange (before after : TaxRate) :
      ratePolicy.change before after = .ok [] ↔ (before == after) = true := by
    show Except.ok (Field.change before after _).toList = _ ↔ _
    rw [Except.ok.injEq, Option.toList_eq_nil_iff, Field.change_eq_none_iff]
  have hRemove : ∀ removed, removed ≠ [] → ratePolicy.remove removed ≠ [] :=
    fun removed hSome hNone => hSome (List.map_eq_nil_iff.mp hNone)
  refine (Policy.reconcile_eq_nil_iff hOld hNew).trans ?_
  rw [Policy.removals_eq_nil_iff hRemove]
  constructor
  · rintro ⟨hOnly, hHeld, -⟩
    have hKeys : (old.map TaxRate.key).Perm (new.map TaxRate.key) := by
      refine (List.perm_ext_iff_of_nodup hOld hNew).mpr fun key => ⟨fun hKey => ?_, ?_⟩
      · obtain ⟨rate, hRate, rfl⟩ := List.mem_map.mp hKey
        exact hOnly rate hRate
      · exact Policy.keys_of_held hHeld key
    refine TaxRate.sameRates_of_keys hKeys fun rate hRate wanted hWanted hKey => ?_
    obtain ⟨before, hBefore, hSame, hUnchanged⟩ := hHeld wanted hWanted
    rw [List.inj_on_of_nodup_map hOld hRate hBefore (hKey.trans hSame.symm)]
    exact (hChange before wanted).mp hUnchanged
  · rintro ⟨arranged, hSame, hPerm⟩
    have hKeys : old.map TaxRate.key = arranged.map TaxRate.key :=
      KeyedList.keys_of_forall₂ hSame fun _ _ => TaxRate.key_of_beq
    refine ⟨fun rate hRate => ?_, fun wanted hWanted => ?_, ?_⟩
    · have hKey : rate.key ∈ arranged.map TaxRate.key := hKeys ▸ List.mem_map_of_mem hRate
      exact (hPerm.map TaxRate.key).mem_iff.mp hKey
    · obtain ⟨rate, hRate, hAgrees⟩ :=
        KeyedList.exists_of_forall₂ hSame.flip wanted (hPerm.mem_iff.mpr hWanted)
      exact ⟨rate, hRate, TaxRate.key_of_beq hAgrees, (hChange rate wanted).mpr hAgrees⟩
    · unfold Policy.reordering
      split <;> rfl

end TaxCategory

/-! ## All lists -/

open KeyedList (Policy)

/-- The kinds of lists that are reconciled with single values in them, each with what makes no
difference to it: the same values, the wanted keys in the wanted order, or the same rates in any
order. -/
inductive Discerns : {ε α : Type} → Policy ε α → (List ε → List ε → Prop) → Prop
  | attributeValues (name : String) :
      Discerns (ProductType.plainValues name) fun old new => old = new
  | localizedAttributeValues (name : String) :
      Discerns (ProductType.localizedValues name) fun old new => old = new
  | fieldValues (name : String) :
      Discerns (CustomType.plainValues name) fun old new =>
        (new.map EnumValue.key).Sublist (old.map EnumValue.key)
  | localizedFieldValues (name : String) :
      Discerns (CustomType.localizedValues name) fun old new =>
        (new.map EnumValue.key).Sublist (old.map EnumValue.key)
  | rates : Discerns TaxCategory.ratePolicy TaxRate.SameRates

/--
Each kind of list discerns exactly its own notion of no change: lists without repeated keys ask for
nothing if and only if what they differ in makes no difference. An absent new list is an empty one.

Amounts are compared as numbers, so the two zeros are one amount. A rate whose amount is no number is
the same as none, and accordingly it is replaced each time.
-/
theorem Discerns.asks_nothing_iff {ε α : Type} {policy : Policy ε α} {Same : List ε → List ε → Prop}
    (hKind : Discerns policy Same) {old : List ε} {new : Option (List ε)}
    (hOld : (policy.keys old).Nodup) (hNew : (policy.keys (new.getD [])).Nodup) :
    policy.reconcile old new = .ok [] ↔ Same old (new.getD []) := by
  rw [Policy.reconcile_getD]
  cases hKind with
  | attributeValues name => exact ProductType.valuePolicy_eq_nil_iff hOld hNew
  | localizedAttributeValues name => exact ProductType.valuePolicy_eq_nil_iff hOld hNew
  | fieldValues name =>
      exact Policy.reconcile_eq_nil_iff_sublist (fun _ => rfl) (fun _ _ => rfl) (fun _ => rfl)
        hOld hNew
  | localizedFieldValues name =>
      exact Policy.reconcile_eq_nil_iff_sublist (fun _ => rfl) (fun _ _ => rfl) (fun _ => rfl)
        hOld hNew
  | rates => exact TaxCategory.reconcile_eq_nil_iff_same hOld hNew

/-- Medals with other labels and without the second one ask a field for nothing, but an attribute
for something; two rates in another order, one of them with the other zero, ask for nothing. -/
theorem Discerns.asks_nothing_iff_medals :
    let medals : List (EnumValue String) := [⟨"gold", "Gold"⟩, ⟨"silver", "Silver"⟩, ⟨"tin", "Tin"⟩]
    let wanted : List (EnumValue String) := [⟨"gold", "Au"⟩, ⟨"tin", "Sn"⟩]
    let german : TaxRate := .basic "german" "Standard" ⟨0x3FC851EB851EB852⟩ "DE"
    let exempt : TaxRate := .basic "exempt" "Exempt" ⟨0⟩ "DE"
    let rates := [{ exempt with amount := ⟨0x8000000000000000⟩ }, german]
    (CustomType.plainValues "medal").reconcile medals (some wanted) = .ok [] ∧
      (ProductType.plainValues "medal").reconcile medals (some wanted) ≠ .ok [] ∧
      TaxRate.SameRates [german, exempt] rates := by
  intro medals wanted german exempt rates
  have hMedals : (medals.map EnumValue.key).Nodup := by decide
  have hWanted : (wanted.map EnumValue.key).Nodup := by decide
  have hRates : TaxCategory.ratePolicy.reconcile [german, exempt] (some rates) = .ok [] := by
    decide +kernel
  have hField : (CustomType.plainValues "medal").reconcile medals (some wanted) = .ok [] ↔ _ :=
    asks_nothing_iff (.fieldValues "medal") hMedals hWanted
  have hAttribute : (ProductType.plainValues "medal").reconcile medals (some wanted) = .ok [] ↔ _ :=
    asks_nothing_iff (.attributeValues "medal") hMedals hWanted
  refine ⟨hField.mpr (by decide), fun hNothing => ?_, ?_⟩
  · exact absurd (hAttribute.mp hNothing) (by decide)
  · exact (asks_nothing_iff .rates (by decide) (by decide)).mp hRates

end CatalogSync
