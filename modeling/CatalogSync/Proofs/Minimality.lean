import CatalogSync.Proofs.Converging
import CatalogSync.Proofs.Omitting

/-!
# Differences are minimal

No action of a difference is redundant: with any of them left out, the resource asks for something
when it is compared with the draft again. Each member of a resource is changed by its own action.
The enum values of a shared attribute or field are a list inside of a list, so what the parts of the
inner reconciliation leave is what the outer one needs to know about its changes.

## Main results

* `ProductType.attributes_need`, `CustomType.fields_need`, `TaxCategory.rates_need`: the lists.
* `Category.diff_minimal`, `ProductType.diff_minimal`, `CustomType.diff_minimal`,
  `TaxCategory.diff_minimal`: each family.
* `Family.OfCatalog.leaves_difference`: no action of a difference can be left out.
-/

namespace CatalogSync

open KeyedList (Policy)

/-! ## Single members -/

namespace Field

variable {α β S : Type} [BEq α] {step : S → β → S}

theorem change_needed (embed : α → S) {old new : α} {action : β}
    (hStep : step (embed old) action = embed new) :
    Needed step embed (fun value => change value new action = none) old
      (change old new action).toList := by
  refine Needed.of_option (fun value => change value new action) fun other hAsks => ?_
  rw [eq_of_change hAsks]
  exact ⟨new, hStep⟩

theorem setOrClear_needed (embed : Option α → S) {old : Option α} (new : Option α) {set : α → β}
    {clear : β}
    (hSet : ∀ value, step (embed old) (set value) = embed (some value))
    (hClear : step (embed old) clear = embed none) :
    Needed step embed (fun value => setOrClear value new set clear = none) old
      (setOrClear old new set clear).toList := by
  refine Needed.of_option (fun value => setOrClear value new set clear) fun other hAsks => ?_
  rcases eq_of_setOrClear hAsks with ⟨value, -, rfl⟩ | ⟨-, rfl⟩
  · exact ⟨some value, hSet value⟩
  · exact ⟨none, hClear⟩

theorem setIfGiven_needed (embed : Option α → S) {old new : Option α} {set : α → β}
    (hSet : ∀ value, step (embed old) (set value) = embed (some value)) :
    Needed step embed (fun value => setIfGiven value new set = none) old
      (setIfGiven old new set).toList := by
  refine Needed.of_option (fun value => setIfGiven value new set) fun other hAsks => ?_
  obtain ⟨value, -, rfl⟩ := eq_of_setIfGiven hAsks
  exact ⟨some value, hSet value⟩

end Field

/-! ## Categories -/

namespace Category

/-- A category in the state of the draft received all actions. -/
theorem diff_minimal {category : Category} {draft : Draft} {part : List Action}
    (hPart : part.Sublist (diff category draft))
    (hDone : diff (category.apply part) draft = []) : part = diff category draft := by
  obtain ⟨_, sixth, rfl, hRest, hSixth⟩ := List.sublist_append_iff.mp hPart
  obtain ⟨_, fifth, rfl, hRest, hFifth⟩ := List.sublist_append_iff.mp hRest
  obtain ⟨_, fourth, rfl, hRest, hFourth⟩ := List.sublist_append_iff.mp hRest
  obtain ⟨_, third, rfl, hRest, hThird⟩ := List.sublist_append_iff.mp hRest
  obtain ⟨first, second, rfl, hFirst, hSecond⟩ := List.sublist_append_iff.mp hRest
  obtain ⟨name, hName, hNameAll⟩ := Field.change_needed (fun name => { category with name })
    (rfl : perform category (.changeName draft.name) = _) first hFirst
  obtain ⟨slug, hSlug, hSlugAll⟩ := Field.change_needed (fun slug => { category with name, slug })
    (rfl : perform { category with name } (.changeSlug draft.slug) = _) second hSecond
  obtain ⟨description, hDescription, hDescriptionAll⟩ :=
    Field.setOrClear_needed (fun description => { category with name, slug, description })
      draft.description (fun _ => (rfl : perform _ _ = _)) rfl third hThird
  obtain ⟨parent, hParent, hParentAll⟩ :=
    Field.setIfGiven_needed (fun parent => { category with name, slug, description, parent })
      (fun _ => (rfl : perform _ _ = _)) fourth hFourth
  obtain ⟨orderHint, hOrderHint, hOrderHintAll⟩ :=
    Field.setIfGiven_needed
      (fun orderHint => { category with name, slug, description, parent, orderHint })
      (fun _ => (rfl : perform _ _ = _)) fifth hFifth
  obtain ⟨externalId, hExternalId, hExternalIdAll⟩ :=
    Field.setOrClear_needed
      (fun externalId => { category with name, slug, description, parent, orderHint, externalId })
      draft.externalId (fun _ => (rfl : perform _ _ = _)) rfl sixth hSixth
  have hLeft : (first ++ second ++ third ++ fourth ++ fifth ++ sixth).foldl perform category =
      { category with name, slug, description, parent, orderHint, externalId } := by
    rw [List.foldl_append, List.foldl_append, List.foldl_append, List.foldl_append,
      List.foldl_append]
    rw [show first.foldl perform category = { category with name } from hName,
      show second.foldl perform { category with name } = _ from hSlug,
      show third.foldl perform { category with name, slug } = _ from hDescription,
      show fourth.foldl perform { category with name, slug, description } = _ from hParent,
      show fifth.foldl perform { category with name, slug, description, parent } = _
        from hOrderHint]
    exact hExternalId
  simp only [apply, hLeft, diff, List.append_eq_nil_iff, Option.toList_eq_nil_iff] at hDone
  obtain ⟨⟨⟨⟨⟨hNoName, hNoSlug⟩, hNoDescription⟩, hNoParent⟩, hNoOrderHint⟩, hNoExternalId⟩ := hDone
  rw [hNameAll hNoName, hSlugAll hNoSlug, hDescriptionAll hNoDescription, hParentAll hNoParent,
    hOrderHintAll hNoOrderHint, hExternalIdAll hNoExternalId]
  rfl

end Category

/-! ## Tax categories -/

namespace TaxCategory

/-- Rates are removed one by one and replaced by one action each. -/
theorem rates_need (taxCategory : TaxCategory) :
    ratePolicy.Needs rateRegime perform fun rates => { taxCategory with rates } where
  toPerforms := rates_performs taxCategory
  placement := rfl
  remove_part hPart := Or.inr (List.sublist_map_iff.mp hPart)
  remove_nil {removed} hSome := by
    show removed.map _ = [] ↔ true = false
    simp [hSome]
  change_part {before after actions} hKey hOk := by
    refine (rates_performs taxCategory).change_single hKey hOk ?_
    cases hOk
    cases Field.change before after _ <;> simp

/-- A tax category that asks for nothing received all actions. -/
theorem diff_minimal {old : TaxCategory} {new : Draft} {actions part : List Action}
    (hDiff : diff old new = .ok actions) (hPart : part.Sublist actions)
    (hDone : diff (old.apply part) new = .ok []) : part = actions := by
  obtain ⟨inner, hReconcile, hActions⟩ := Refusal.bind_eq_ok_iff.mp hDiff
  cases hActions
  rw [Policy.reconcile_getD] at hReconcile
  have hTexts := Needed.append (fun name description => { old with name, description })
    (Field.change_needed (fun name => { old with name })
      (rfl : perform old (.changeName new.name) = _))
    fun name => Field.setOrClear_needed (fun description => { old with name, description })
      new.description (fun _ => (rfl : perform _ (.setDescription _) = _))
      (rfl : perform _ (.setDescription none) = _)
  have hAll := Needed.append
    (fun (texts : String × Option String) rates =>
      { old with name := texts.1, description := texts.2, rates }) hTexts
    fun texts => (rates_need
      { old with name := texts.1, description := texts.2 }).reconcile_needed hReconcile
  obtain ⟨⟨⟨name, description⟩, rates⟩, hLeft, hEverything⟩ := hAll part hPart
  obtain ⟨again, hAgain, hNothing⟩ := Refusal.bind_eq_ok_iff.mp hDone
  simp only [apply, hLeft] at hAgain hNothing
  rw [Policy.reconcile_getD] at hAgain
  obtain ⟨hNoTexts, rfl⟩ := List.append_eq_nil_iff.mp (Except.ok.inj hNothing)
  obtain ⟨hNoName, hNoDescription⟩ := List.append_eq_nil_iff.mp hNoTexts
  exact hEverything ⟨⟨Option.toList_eq_nil_iff.mp hNoName,
    Option.toList_eq_nil_iff.mp hNoDescription⟩, hAgain⟩

end TaxCategory

/-! ## Product types -/

namespace ProductType

variable {productType : ProductType} {front back : List AttributeDefinition} {actions : List Action}
  {name : String} {label : LocalizedText}

/-- The enum values of a product type are removed, relabelled, added and reordered by one action
each. -/
theorem valuePolicy_needs {Label : Type} [DecidableEq Label] {collection : String}
    {remove : List String → Action} {relabelling add : EnumValue Label → Action}
    {reorder : List (EnumValue Label) → Action} {embed : List (EnumValue Label) → ProductType}
    (hPerforms : (valuePolicy collection remove relabelling add reorder).Performs .exact perform
      embed) :
    (valuePolicy collection remove relabelling add reorder).Needs .exact perform embed := by
  refine hPerforms.needs rfl (fun _ => Nat.le_refl 1)
    (fun _ _ => iff_of_false (List.cons_ne_nil _ _) Bool.noConfusion) ?_
  intro before after actions hOk
  cases hOk
  cases Field.change before.label after.label _ <;> simp

/-- All actions for the type of an attribute are needed. -/
theorem diffType_needed (hFront : ¬ name ∈ front.map AttributeDefinition.name) {old new : ValueType}
    (hOk : diffType name old new = .ok actions) :
    Needed perform (fun type => productType.around front back ⟨name, label, type⟩)
      (fun type => diffType name type new = .ok []) old actions := by
  intro part hPart
  unfold diffType at hOk
  split at hOk
  · have hPerforms := plainValues_performs productType back label hFront
    obtain ⟨left, hLeft, hAll⟩ :=
      (valuePolicy_needs hPerforms).reconcile_needed hOk part hPart
    exact ⟨.enum left, hLeft, hAll⟩
  · have hPerforms := localizedValues_performs productType back label hFront
    obtain ⟨left, hLeft, hAll⟩ :=
      (valuePolicy_needs hPerforms).reconcile_needed hOk part hPart
    exact ⟨.localizedEnum left, hLeft, hAll⟩
  · split at hOk
    · cases hOk
      obtain rfl := List.eq_nil_of_sublist_nil hPart
      exact ⟨old, rfl, fun _ => rfl⟩
    · cases hOk

/-- Attributes are removed one by one, and all actions for a shared one are needed. -/
theorem attributes_need (productType : ProductType) :
    attributePolicy.Needs .exact perform fun attributes => { productType with attributes } where
  toPerforms := attributes_performs productType
  placement := rfl
  remove_part hPart := Or.inr (List.sublist_map_iff.mp hPart)
  remove_nil {removed} hSome := by
    show removed.map _ = [] ↔ true = false
    simp [hSome]
  change_part {before after actions} hKey hOk front back hNodup part hPart := by
    have hFront : ¬ before.name ∈ front.map AttributeDefinition.name :=
      Policy.not_mem_keys_front hNodup
    obtain ⟨name, label, old⟩ := before
    obtain ⟨_, newLabel, new⟩ := after
    cases hKey
    obtain ⟨changes, hType, hActions⟩ := Refusal.bind_eq_ok_iff.mp hOk
    cases hActions
    have hStep : perform (productType.around front back ⟨name, label, old⟩)
        (.changeAttributeDefinitionLabel name newLabel) =
          productType.around front back ⟨name, newLabel, old⟩ :=
      onAttribute_around ⟨name, label, old⟩ hFront
    have hBoth := Needed.append
      (fun label type => productType.around front back ⟨name, label, type⟩)
      (Field.change_needed (fun label => productType.around front back ⟨name, label, old⟩) hStep)
      fun label => diffType_needed hFront hType
    obtain ⟨⟨label, type⟩, hLeft, hAll⟩ := hBoth part hPart
    refine ⟨⟨name, label, type⟩, rfl, hLeft, fun hDone => ?_⟩
    obtain ⟨again, hAgain, hNothing⟩ := Refusal.bind_eq_ok_iff.mp hDone
    obtain ⟨hNoLabel, rfl⟩ := List.append_eq_nil_iff.mp (Except.ok.inj hNothing)
    exact hAll ⟨Option.toList_eq_nil_iff.mp hNoLabel, hAgain⟩

/-- A product type that asks for nothing received all actions. -/
theorem diff_minimal {old : ProductType} {new : Draft} {part : List Action}
    (hDiff : diff old new = .ok actions) (hPart : part.Sublist actions)
    (hDone : diff (old.apply part) new = .ok []) : part = actions := by
  obtain ⟨inner, hReconcile, hActions⟩ := Refusal.bind_eq_ok_iff.mp hDiff
  cases hActions
  rw [Policy.reconcile_getD] at hReconcile
  have hTexts := Needed.append (fun name description => { old with name, description })
    (Field.change_needed (fun name => { old with name })
      (rfl : perform old (.changeName new.name) = _))
    fun name => Field.change_needed (fun description => { old with name, description })
      (rfl : perform _ (.changeDescription new.description) = _)
  have hAll := Needed.append
    (fun (texts : String × String) attributes =>
      { old with name := texts.1, description := texts.2, attributes }) hTexts
    fun texts => (attributes_need
      { old with name := texts.1, description := texts.2 }).reconcile_needed hReconcile
  obtain ⟨⟨⟨name, description⟩, attributes⟩, hLeft, hEverything⟩ := hAll part hPart
  obtain ⟨again, hAgain, hNothing⟩ := Refusal.bind_eq_ok_iff.mp hDone
  simp only [apply, hLeft] at hAgain hNothing
  rw [Policy.reconcile_getD] at hAgain
  obtain ⟨hNoTexts, rfl⟩ := List.append_eq_nil_iff.mp (Except.ok.inj hNothing)
  obtain ⟨hNoName, hNoDescription⟩ := List.append_eq_nil_iff.mp hNoTexts
  exact hEverything ⟨⟨Option.toList_eq_nil_iff.mp hNoName,
    Option.toList_eq_nil_iff.mp hNoDescription⟩, hAgain⟩

end ProductType

/-! ## Custom types -/

namespace CustomType

variable {customType : CustomType} {front back : List FieldDefinition} {actions : List Action}
  {name : String} {label : LocalizedText}

/-- All actions for the type of a field are needed. -/
theorem diffType_needed (hFront : ¬ name ∈ front.map FieldDefinition.name) {old new : ValueType}
    (hOk : diffType name old new = .ok actions) :
    Needed perform (fun type => customType.around front back ⟨name, label, type⟩)
      (fun type => diffType name type new = .ok []) old actions := by
  intro part hPart
  unfold diffType at hOk
  split at hOk
  · have hNeeds := (plainValues_performs customType back label hFront).needs rfl
      (fun _ => Nat.zero_le 1) (fun _ _ => iff_of_true rfl rfl)
      fun _ _ _ hChange => Except.ok.inj hChange ▸ Nat.zero_le 1
    obtain ⟨left, hLeft, hAll⟩ := hNeeds.reconcile_needed hOk part hPart
    exact ⟨.enum left, hLeft, hAll⟩
  · have hNeeds := (localizedValues_performs customType back label hFront).needs rfl
      (fun _ => Nat.zero_le 1) (fun _ _ => iff_of_true rfl rfl)
      fun _ _ _ hChange => Except.ok.inj hChange ▸ Nat.zero_le 1
    obtain ⟨left, hLeft, hAll⟩ := hNeeds.reconcile_needed hOk part hPart
    exact ⟨.localizedEnum left, hLeft, hAll⟩
  · split at hOk
    · cases hOk
      obtain rfl := List.eq_nil_of_sublist_nil hPart
      exact ⟨old, rfl, fun _ => rfl⟩
    · cases hOk

/-- Fields are removed one by one, and all actions for a shared one are needed. -/
theorem fields_need (customType : CustomType) :
    fieldPolicy.Needs fieldRegime perform fun fieldDefinitions =>
      { customType with fieldDefinitions } where
  toPerforms := fields_performs customType
  placement := rfl
  remove_part hPart := Or.inr (List.sublist_map_iff.mp hPart)
  remove_nil {removed} hSome := by
    show removed.map _ = [] ↔ true = false
    simp [hSome]
  change_part {before after actions} hKey hOk front back hNodup part hPart := by
    have hFront : ¬ before.name ∈ front.map FieldDefinition.name :=
      Policy.not_mem_keys_front hNodup
    obtain ⟨name, label, old⟩ := before
    obtain ⟨_, newLabel, new⟩ := after
    cases hKey
    obtain ⟨changes, hType, hActions⟩ := Refusal.bind_eq_ok_iff.mp hOk
    cases hActions
    have hStep : perform (customType.around front back ⟨name, label, old⟩)
        (.changeFieldDefinitionLabel name newLabel) =
          customType.around front back ⟨name, newLabel, old⟩ :=
      onField_around ⟨name, label, old⟩ hFront
    have hBoth := Needed.append
      (fun label type => customType.around front back ⟨name, label, type⟩)
      (Field.change_needed (fun label => customType.around front back ⟨name, label, old⟩) hStep)
      fun label => diffType_needed hFront hType
    obtain ⟨⟨label, type⟩, hLeft, hAll⟩ := hBoth part hPart
    refine ⟨⟨name, label, type⟩, rfl, hLeft, fun hDone => ?_⟩
    obtain ⟨again, hAgain, hNothing⟩ := Refusal.bind_eq_ok_iff.mp hDone
    obtain ⟨hNoLabel, rfl⟩ := List.append_eq_nil_iff.mp (Except.ok.inj hNothing)
    exact hAll ⟨Option.toList_eq_nil_iff.mp hNoLabel, hAgain⟩

/-- A custom type that asks for nothing received all actions. -/
theorem diff_minimal {old : CustomType} {new : Draft} {part : List Action}
    (hDiff : diff old new = .ok actions) (hPart : part.Sublist actions)
    (hDone : diff (old.apply part) new = .ok []) : part = actions := by
  obtain ⟨inner, hReconcile, hActions⟩ := Refusal.bind_eq_ok_iff.mp hDiff
  cases hActions
  have hTexts := Needed.append (fun name description => { old with name, description })
    (Field.change_needed (fun name => { old with name })
      (rfl : perform old (.changeName new.name) = _))
    fun name => Field.setOrClear_needed (fun description => { old with name, description })
      new.description (fun _ => (rfl : perform _ (.setDescription _) = _))
      (rfl : perform _ (.setDescription none) = _)
  have hAll := Needed.append
    (fun (texts : LocalizedText × Option LocalizedText) fieldDefinitions =>
      { old with name := texts.1, description := texts.2, fieldDefinitions }) hTexts
    fun texts => (fields_need
      { old with name := texts.1, description := texts.2 }).reconcile_needed hReconcile
  obtain ⟨⟨⟨name, description⟩, fieldDefinitions⟩, hLeft, hEverything⟩ := hAll part hPart
  obtain ⟨again, hAgain, hNothing⟩ := Refusal.bind_eq_ok_iff.mp hDone
  simp only [apply, hLeft] at hAgain hNothing
  obtain ⟨hNoTexts, rfl⟩ := List.append_eq_nil_iff.mp (Except.ok.inj hNothing)
  obtain ⟨hNoName, hNoDescription⟩ := List.append_eq_nil_iff.mp hNoTexts
  exact hEverything ⟨⟨Option.toList_eq_nil_iff.mp hNoName,
    Option.toList_eq_nil_iff.mp hNoDescription⟩, hAgain⟩

end CustomType

/-! ## All families -/

namespace Family

/--
No action of a difference can be left out, alone or with others: after any other part of the actions
the draft asks for something again, or is refused.
-/
theorem OfCatalog.leaves_difference {F : Family} {Sound : F.Draft → Prop}
    (hFamily : F.OfCatalog Sound) {old : F.Resource} {new : F.Draft} {actions part : List F.Action}
    (hDiff : F.diff old new = .ok actions) (hPart : part.Sublist actions) (hLess : part ≠ actions) :
    F.diff (F.apply old part) new ≠ .ok [] := by
  intro hDone
  refine hLess ?_
  cases hFamily with
  | category =>
      cases hDiff
      exact Category.diff_minimal hPart (Except.ok.inj hDone)
  | productType => exact ProductType.diff_minimal hDiff hPart hDone
  | customType => exact CustomType.diff_minimal hDiff hPart hDone
  | taxCategory => exact TaxCategory.diff_minimal hDiff hPart hDone

theorem OfCatalog.leaves_difference_shirt :
    let label := LocalizedText.of "en"
    let color : AttributeDefinition :=
      ⟨"color", label "Color", .enum [⟨"red", "Red"⟩, ⟨"green", "Green"⟩, ⟨"blue", "Blue"⟩]⟩
    let size : AttributeDefinition := ⟨"size", label "Size", .number⟩
    let newColor : AttributeDefinition :=
      ⟨"color", label "Colour", .enum [⟨"blue", "Navy"⟩, ⟨"red", "Red"⟩]⟩
    let brand : AttributeDefinition := ⟨"brand", label "Brand", .text⟩
    let old : ProductType := ⟨"1", "shirt", 7, "Shirt", "Shirts", [color, size]⟩
    let new : ProductType.Draft := ⟨some "shirt", "Shirt", "Shirts", some [brand, newColor]⟩
    let removal : ProductType.Action := .removeAttributeDefinition "size"
    let addition : ProductType.Action := .addAttributeDefinition brand
    let relabelling : ProductType.Action :=
      .changeAttributeDefinitionLabel "color" (label "Colour")
    let order : ProductType.Action :=
      .changePlainEnumValueOrder "color" [⟨"blue", "Navy"⟩, ⟨"red", "Red"⟩]
    let attributeOrder : ProductType.Action := .changeAttributeOrder [brand, newColor]
    let actions : List ProductType.Action :=
      [ removal, addition, relabelling, .removeEnumValues "color" ["green"]
      , .changePlainEnumValueLabel "color" ⟨"blue", "Navy"⟩, order, attributeOrder ]
    let part : List ProductType.Action := [removal, addition, relabelling, order, attributeOrder]
    Family.productType.OfCatalog ProductType.Draft.WellKeyed ∧ old.diff new = .ok actions ∧
      part.Sublist actions ∧ part ≠ actions ∧ (old.apply part).diff new ≠ .ok [] := by
  intro label color size newColor brand old new removal addition relabelling order attributeOrder
    actions part
  have hDiff : old.diff new = .ok actions := by decide +kernel
  have hPart : part.Sublist actions := by decide +kernel
  have hLess : part ≠ actions := by decide +kernel
  exact ⟨.productType, hDiff, hPart, hLess,
    OfCatalog.leaves_difference .productType hDiff hPart hLess⟩

end Family

end CatalogSync
