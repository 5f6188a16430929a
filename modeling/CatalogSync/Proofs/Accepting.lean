import CatalogSync.Proofs.CustomTypes
import CatalogSync.Proofs.ProductTypes

/-!
# Drafts that are accepted again

The enum values of an attribute or field are compared with the old ones, and checked for repeated
keys, only if the old resource has it. One that is added goes to the remote as it is, and its values
are checked for the first time by the next difference. Whatever else the first difference lets pass
asks for nothing the second time.

## Main results

* `ValueType.repeatedKey?_eq_none_iff`: which types are refused as a shared one.
* `KeyedList.Policy.reconcile_eq_refusal`: elements in their places ask for nothing, unless the
  change of one of them is refused.
* `ProductType.diff_again`, `CustomType.diff_again`: the second difference for a draft.
* `accepts_again`: a draft is accepted again exactly if no added enumeration repeats a key.
-/

namespace CatalogSync

open KeyedList (firstRepeated firstRepeated_eq_none_iff)

/-! ## Lists whose elements are in their places -/

/-- The refusal of a type whose enum values repeat a key, by the names of the two kinds of lists. -/
def ValueType.repeatedKey? (plain localized : String) : ValueType → Option Refusal
  | .enum values => (firstRepeated (values.map EnumValue.key)).map (.duplicateKey plain)
  | .localizedEnum values =>
      (firstRepeated (values.map EnumValue.key)).map (.duplicateKey localized)
  | _ => none

theorem ValueType.repeatedKey?_eq_none_iff {plain localized : String} {type : ValueType} :
    type.repeatedKey? plain localized = none ↔ type.WellKeyed := by
  cases type with
  | enum values => exact Option.map_eq_none_iff.trans firstRepeated_eq_none_iff
  | localizedEnum values => exact Option.map_eq_none_iff.trans firstRepeated_eq_none_iff
  | _ => exact iff_of_true rfl trivial

/-- A type of the same kind as another holds no enum values, unless both are enumerations. -/
theorem ValueType.wellKeyed_of_kind_eq {left right : ValueType} (hKind : left.kind = right.kind)
    (hPlain : ∀ values others, left = .enum values → right = .enum others → False)
    (hLocalized : ∀ values others,
      left = .localizedEnum values → right = .localizedEnum others → False) : right.WellKeyed := by
  have hSame := eq_of_kind_eq hKind hPlain hLocalized
  subst hSame
  cases left with
  | enum values => exact (hPlain values values rfl rfl).elim
  | localizedEnum values => exact (hLocalized values values rfl rfl).elim
  | _ => trivial

namespace KeyedList.Policy

variable {ε α : Type} {policy : Policy ε α} {old new list : List ε} {refusal? : ε → Option Refusal}

/-- A list asks for nothing to become itself, unless it repeats a key. -/
theorem reconcile_self_or_refused
    (hSame : ∀ element ∈ list, policy.change element element = .ok []) :
    policy.reconcile list (some list) =
      ((firstRepeated (policy.keys list)).map (.duplicateKey policy.collection)).elim
        (.ok []) .error := by
  cases hRepeated : firstRepeated (policy.keys list) with
  | none => exact reconcile_self (firstRepeated_eq_none_iff.mp hRepeated) hSame
  | some key =>
      simp only [reconcile, checkKeys, hRepeated]
      rfl

/-- Changes that ask for nothing or are refused come to the first refusal. -/
theorem changes_eq_refusal (hList : (policy.keys list).Nodup)
    (hHeld : ∀ after ∈ new, ∃ before ∈ list, policy.key before = policy.key after ∧
      policy.change before after = (refusal? after).elim (.ok []) .error) :
    policy.changes list new = (new.findSome? refusal?).elim (.ok []) .error := by
  induction new with
  | nil => rfl
  | cons after rest ih =>
      obtain ⟨before, hBefore, hKey, hChange⟩ := hHeld after (List.mem_cons_self ..)
      have hFind := (find?_eq_some_iff hList).mpr ⟨hBefore, hKey⟩
      have hRest := ih fun other hOther => hHeld other (List.mem_cons_of_mem _ hOther)
      unfold changes
      simp only [hFind, hChange, hRest, List.findSome?_cons]
      cases refusal? after with
      | some refusal => rfl
      | none => cases rest.findSome? refusal? <;> rfl

/-- Elements in their places ask for nothing, unless the change of one of them is refused. -/
theorem reconcile_eq_refusal (hNew : (policy.keys new).Nodup)
    (hKeys : policy.keys list = policy.keys new)
    (hHeld : ∀ after ∈ new, ∃ before ∈ list, policy.key before = policy.key after ∧
      policy.change before after = (refusal? after).elim (.ok []) .error) :
    policy.reconcile list (some new) = (new.findSome? refusal?).elim (.ok []) .error := by
  have hList : (policy.keys list).Nodup := hKeys ▸ hNew
  have hChanges := changes_eq_refusal hList hHeld
  cases hRefusal : new.findSome? refusal? with
  | none =>
      refine reconcile_eq_nil hList hNew (removals_eq_nil fun element hElement => ?_)
        (fun after hAfter => ?_) (reordering_eq_nil ?_)
      · rw [← hKeys]
        exact List.mem_map_of_mem hElement
      · obtain ⟨before, hBefore, hKey, hChange⟩ := hHeld after hAfter
        rw [List.findSome?_eq_none_iff.mp hRefusal after hAfter] at hChange
        exact ⟨before, hBefore, hKey, hChange⟩
      · rw [hKeys]
        exact List.filter_eq_self.mpr fun key hKey => List.contains_iff_mem.mpr hKey
  | some refusal =>
      rw [hRefusal] at hChanges
      simp only [reconcile, checkKeys_eq_ok_iff.mpr hList, checkKeys_eq_ok_iff.mpr hNew, hChanges]
      rfl

/-- If only added elements can be refused, the first refusal of a new element is that of an added
one. -/
theorem findSome?_missingFrom (hShared : ∀ element ∈ new,
      policy.key element ∈ policy.keys old → refusal? element = none) :
    (policy.missingFrom old new).findSome? refusal? = new.findSome? refusal? := by
  induction new with
  | nil => rfl
  | cons element rest ih =>
      have hRest := ih fun other hOther => hShared other (List.mem_cons_of_mem _ hOther)
      unfold missingFrom at hRest ⊢
      by_cases hOld : policy.key element ∈ policy.keys old
      · rw [List.filter_cons_of_neg (by simpa using hOld), hRest, List.findSome?_cons,
          hShared element (List.mem_cons_self ..) hOld]
      · rw [List.filter_cons_of_pos (by simpa using hOld), List.findSome?_cons,
          List.findSome?_cons, hRest]

end KeyedList.Policy

open KeyedList (Policy)

/-! ## Product types -/

namespace ProductType

/-- The attributes that a draft adds to a product type. -/
def Draft.added (draft : Draft) (old : ProductType) : List AttributeDefinition :=
  attributePolicy.missingFrom old.attributes (draft.attributes.getD [])

/-- The refusal of an attribute whose enum values repeat a key. -/
def repeatedValue? (definition : AttributeDefinition) : Option Refusal :=
  definition.attributeType.repeatedKey? (plainValues definition.name).collection
    (localizedValues definition.name).collection

variable {old : ProductType} {new : Draft} {actions : List Action}

/-- A change that is accepted leads to different keys. -/
theorem wellKeyed_of_diffAttribute {before after : AttributeDefinition}
    (hOk : diffAttribute before after = .ok actions) : after.attributeType.WellKeyed := by
  obtain ⟨changes, hType, -⟩ := Refusal.bind_eq_ok_iff.mp hOk
  unfold diffType at hType
  split at hType
  · rename_i hAfter
    rw [hAfter]
    exact (Policy.reconcile_eq_ok_iff.mp hType).2.1
  · rename_i hAfter
    rw [hAfter]
    exact (Policy.reconcile_eq_ok_iff.mp hType).2.1
  · rename_i hPlain hLocalized
    split at hType
    · rename_i hKind
      exact ValueType.wellKeyed_of_kind_eq hKind hPlain hLocalized
    · cases hType

/-- An attribute asks for nothing to become itself, unless its enum values repeat a key. -/
theorem diffAttribute_self (definition : AttributeDefinition) :
    diffAttribute definition definition =
      (repeatedValue? definition).elim (.ok []) .error := by
  obtain ⟨name, label, type⟩ := definition
  have hType : diffType name type type =
      (repeatedValue? ⟨name, label, type⟩).elim (.ok []) .error := by
    cases type with
    | enum values =>
        refine Policy.reconcile_self_or_refused fun value _ => ?_
        show Except.ok (Field.change value.label value.label _).toList = _
        rw [Field.change_self, Option.toList_none]
    | localizedEnum values =>
        refine Policy.reconcile_self_or_refused fun value _ => ?_
        show Except.ok (Field.change value.label value.label _).toList = _
        rw [Field.change_self, Option.toList_none]
    | _ => rfl
  simp only [diffAttribute, hType, Field.change_self]
  cases repeatedValue? ⟨name, label, type⟩ <;> rfl

/-- After the actions for a draft it asks for nothing, or is refused for an attribute it added. -/
theorem diff_again (hDiff : diff old new = .ok actions) :
    diff (old.apply actions) new =
      ((new.added old).findSome? repeatedValue?).elim (.ok []) .error := by
  obtain ⟨inner, hReconcile, -⟩ := Refusal.bind_eq_ok_iff.mp hDiff
  rw [Policy.reconcile_getD] at hReconcile
  obtain ⟨hOld, hNew, changed, hChanges, -⟩ := Policy.reconcile_eq_ok_iff.mp hReconcile
  have hShared : ∀ definition ∈ new.attributes.getD [],
      attributePolicy.key definition ∈ attributePolicy.keys old.attributes →
        repeatedValue? definition = none := by
    intro definition hDefinition hName
    obtain ⟨before, hBefore, hSame⟩ := List.mem_map.mp hName
    obtain ⟨change, hChange⟩ := Policy.change_of_changes hChanges hOld hBefore hDefinition hSame
    exact ValueType.repeatedKey?_eq_none_iff.mpr (wellKeyed_of_diffAttribute hChange)
  have hAgain : attributePolicy.reconcile (new.attributes.getD []) new.attributes =
      ((new.attributes.getD []).findSome? repeatedValue?).elim (.ok []) .error := by
    rw [Policy.reconcile_getD]
    exact Policy.reconcile_eq_refusal hNew rfl fun definition hDefinition =>
      ⟨definition, hDefinition, rfl, diffAttribute_self definition⟩
  have hFirst : (new.added old).findSome? repeatedValue? =
      (new.attributes.getD []).findSome? repeatedValue? := Policy.findSome?_missingFrom hShared
  rw [apply_eq hDiff, hFirst]
  simp only [diff, hAgain, Field.change_self]
  cases (new.attributes.getD []).findSome? repeatedValue? <;> rfl

end ProductType

/-! ## Custom types -/

namespace CustomType

/-- The fields that a draft adds to a custom type. -/
def Draft.added (draft : Draft) (old : CustomType) : List FieldDefinition :=
  fieldPolicy.missingFrom old.fieldDefinitions draft.fieldDefinitions

/-- The refusal of a field whose enum values repeat a key. -/
def repeatedValue? (field : FieldDefinition) : Option Refusal :=
  field.fieldType.repeatedKey? (plainValues field.name).collection
    (localizedValues field.name).collection

variable {old : CustomType} {new : Draft} {actions : List Action}

/-- A change that is accepted leads to different keys. -/
theorem wellKeyed_of_diffField {before after : FieldDefinition}
    (hOk : diffField before after = .ok actions) : after.fieldType.WellKeyed := by
  obtain ⟨changes, hType, -⟩ := Refusal.bind_eq_ok_iff.mp hOk
  unfold diffType at hType
  split at hType
  · rename_i hAfter
    rw [hAfter]
    exact (Policy.reconcile_eq_ok_iff.mp hType).2.1
  · rename_i hAfter
    rw [hAfter]
    exact (Policy.reconcile_eq_ok_iff.mp hType).2.1
  · rename_i hPlain hLocalized
    split at hType
    · rename_i hKind
      exact ValueType.wellKeyed_of_kind_eq hKind hPlain hLocalized
    · cases hType

/-- A field asks for nothing to become itself, unless its enum values repeat a key. -/
theorem diffField_self (field : FieldDefinition) :
    diffField field field = (repeatedValue? field).elim (.ok []) .error := by
  obtain ⟨name, label, type⟩ := field
  have hType : diffType name type type =
      (repeatedValue? ⟨name, label, type⟩).elim (.ok []) .error := by
    cases type with
    | enum values => exact Policy.reconcile_self_or_refused fun _ _ => rfl
    | localizedEnum values => exact Policy.reconcile_self_or_refused fun _ _ => rfl
    | _ => rfl
  simp only [diffField, hType, Field.change_self]
  cases repeatedValue? ⟨name, label, type⟩ <;> rfl

/-- After the actions for a draft it asks for nothing, or is refused for a field it added. -/
theorem diff_again (hDiff : diff old new = .ok actions) :
    diff (old.apply actions) new =
      ((new.added old).findSome? repeatedValue?).elim (.ok []) .error := by
  obtain ⟨inner, hReconcile, -⟩ := Refusal.bind_eq_ok_iff.mp hDiff
  obtain ⟨hOld, hNew, changed, hChanges, -⟩ := Policy.reconcile_eq_ok_iff.mp hReconcile
  have hSettled := settled_apply hDiff
  have hKeyed : ∀ field ∈ new.fieldDefinitions,
      fieldPolicy.key field ∈ fieldPolicy.keys old.fieldDefinitions →
        field.fieldType.WellKeyed := by
    intro field hField hName
    obtain ⟨before, hBefore, hSame⟩ := List.mem_map.mp hName
    obtain ⟨change, hChange⟩ := Policy.change_of_changes hChanges hOld hBefore hField hSame
    exact wellKeyed_of_diffField hChange
  have hNames : fieldPolicy.keys new.fieldDefinitions =
      fieldPolicy.keys (old.apply actions).fieldDefinitions :=
    KeyedList.keys_of_forall₂ hSettled.fields fun _ _ hField => hField.name.symm
  have hAgain : fieldPolicy.reconcile (old.apply actions).fieldDefinitions
      (some new.fieldDefinitions) =
        (new.fieldDefinitions.findSome? repeatedValue?).elim (.ok []) .error := by
    refine Policy.reconcile_eq_refusal hNew hNames.symm fun wanted hWanted => ?_
    obtain ⟨field, hField, hFieldSettled⟩ :=
      KeyedList.exists_of_forall₂ hSettled.fields wanted hWanted
    refine ⟨field, hField, hFieldSettled.name, ?_⟩
    show diffField field wanted = _
    by_cases hName : fieldPolicy.key wanted ∈ fieldPolicy.keys old.fieldDefinitions
    · have hWellKeyed := hKeyed wanted hWanted hName
      have hNone : repeatedValue? wanted = none := ValueType.repeatedKey?_eq_none_iff.mpr hWellKeyed
      rw [hNone]
      exact diffField_of_fieldSettled hFieldSettled hWellKeyed
    · rw [hFieldSettled.added hName]
      exact diffField_self wanted
  have hFirst : (new.added old).findSome? repeatedValue? =
      new.fieldDefinitions.findSome? repeatedValue? :=
    Policy.findSome?_missingFrom fun field hField hName =>
      ValueType.repeatedKey?_eq_none_iff.mpr (hKeyed field hField hName)
  rw [hFirst]
  simp only [diff, hAgain, hSettled.name, hSettled.description, Field.change_self,
    Field.setOrClear_self]
  cases new.fieldDefinitions.findSome? repeatedValue? <;> rfl

end CustomType

/-! ## Both families -/

/--
The second difference for an accepted draft never asks for further changes. It is refused for the
first added attribute or field whose enum values repeat a key, and otherwise asks for nothing.
-/
theorem accepts_again (old : ProductType) (new : ProductType.Draft)
    (actions : List ProductType.Action) (present : CustomType) (wanted : CustomType.Draft)
    (changes : List CustomType.Action) :
    (old.diff new = .ok actions →
      (old.apply actions).diff new =
          ((new.added old).findSome? ProductType.repeatedValue?).elim (.ok []) .error ∧
        ((old.apply actions).diff new = .ok [] ↔
          ∀ definition ∈ new.added old, definition.attributeType.WellKeyed)) ∧
    (present.diff wanted = .ok changes →
      (present.apply changes).diff wanted =
          ((wanted.added present).findSome? CustomType.repeatedValue?).elim (.ok []) .error ∧
        ((present.apply changes).diff wanted = .ok [] ↔
          ∀ field ∈ wanted.added present, field.fieldType.WellKeyed)) := by
  -- Either family: the second difference is known, and it is empty if there is no refusal.
  have hEmpty : ∀ {α : Type} (refusal? : Option Refusal),
      refusal?.elim (.ok []) Except.error = .ok ([] : List α) ↔ refusal? = none := by
    intro α refusal?
    cases refusal? <;> simp
  constructor
  · intro hDiff
    have hAgain := ProductType.diff_again hDiff
    refine ⟨hAgain, ?_⟩
    rw [hAgain, hEmpty, List.findSome?_eq_none_iff]
    exact forall₂_congr fun _ _ => ValueType.repeatedKey?_eq_none_iff
  · intro hDiff
    have hAgain := CustomType.diff_again hDiff
    refine ⟨hAgain, ?_⟩
    rw [hAgain, hEmpty, List.findSome?_eq_none_iff]
    exact forall₂_congr fun _ _ => ValueType.repeatedKey?_eq_none_iff

theorem accepts_again_sizes :
    let sizes : ValueType := .enum [⟨"m", "M"⟩, ⟨"m", "Medium"⟩]
    let colors : ValueType := .localizedEnum [⟨"red", .of "en" "Red"⟩, ⟨"blue", .of "en" "Blue"⟩]
    let shirt : ProductType := ⟨"1", "shirt", 1, "Shirt", "Shirts", []⟩
    let size : AttributeDefinition := ⟨"size", .of "en" "Size", sizes⟩
    let shirtDraft : ProductType.Draft := ⟨some "shirt", "Shirt", "Shirts", some [size]⟩
    let badge : CustomType := ⟨"2", "badge", 1, .of "en" "Badge", none, []⟩
    let color : FieldDefinition := ⟨"color", .of "en" "Color", colors⟩
    let badgeDraft : CustomType.Draft := ⟨some "badge", .of "en" "Award", none, [color]⟩
    let added : List ProductType.Action := [.addAttributeDefinition size]
    let changed : List CustomType.Action :=
      [.changeName (.of "en" "Award"), .addFieldDefinition color]
    (shirt.diff shirtDraft = .ok added ∧
      (shirt.apply added).diff shirtDraft =
          ((shirtDraft.added shirt).findSome? ProductType.repeatedValue?).elim (.ok []) .error ∧
        ((shirt.apply added).diff shirtDraft = .ok [] ↔
          ∀ definition ∈ shirtDraft.added shirt, definition.attributeType.WellKeyed)) ∧
      badge.diff badgeDraft = .ok changed ∧
        (badge.apply changed).diff badgeDraft =
            ((badgeDraft.added badge).findSome? CustomType.repeatedValue?).elim (.ok []) .error ∧
          ((badge.apply changed).diff badgeDraft = .ok [] ↔
            ∀ field ∈ badgeDraft.added badge, field.fieldType.WellKeyed) := by
  intro sizes colors shirt size shirtDraft badge color badgeDraft added changed
  have hShirt : shirt.diff shirtDraft = .ok added := by decide +kernel
  have hBadge : badge.diff badgeDraft = .ok changed := by decide +kernel
  obtain ⟨hShirtAgain, hBadgeAgain⟩ :=
    accepts_again shirt shirtDraft added badge badgeDraft changed
  exact ⟨⟨hShirt, hShirtAgain hShirt⟩, hBadge, hBadgeAgain hBadge⟩

/-- Acceptance does not last: neither family checks an enumeration before it is added. -/
theorem acceptance_ends :
    (¬ ∀ (old : ProductType) (new : ProductType.Draft) (actions : List ProductType.Action),
      old.version.toNat < 2 ^ 64 - 1 → old.diff new = .ok actions →
        (old.apply actions).diff new = .ok []) ∧
    ¬ ∀ (old : CustomType) (new : CustomType.Draft) (actions : List CustomType.Action),
      old.version.toNat < 2 ^ 64 - 1 → old.diff new = .ok actions →
        (old.apply actions).diff new = .ok [] := by
  let sizes : ValueType := .enum [⟨"m", "M"⟩, ⟨"m", "Medium"⟩]
  constructor
  · let size : AttributeDefinition := ⟨"size", .of "en" "Size", sizes⟩
    let shirt : ProductType := ⟨"1", "shirt", 1, "Shirt", "Shirts", []⟩
    let draft : ProductType.Draft := ⟨some "shirt", "Shirt", "Shirts", some [size]⟩
    intro hAlways
    have hAgain :=
      hAlways shirt draft [.addAttributeDefinition size] (by decide) (by decide +kernel)
    have hRefused : (shirt.apply [.addAttributeDefinition size]).diff draft =
        .error (.duplicateKey "enum values of attribute 'size'" "m") := by decide +kernel
    rw [hAgain] at hRefused
    cases hRefused
  · let size : FieldDefinition := ⟨"size", .of "en" "Size", sizes⟩
    let badge : CustomType := ⟨"2", "badge", 1, .of "en" "Badge", none, []⟩
    let draft : CustomType.Draft := ⟨some "badge", .of "en" "Badge", none, [size]⟩
    intro hAlways
    have hAgain :=
      hAlways badge draft [.addFieldDefinition size] (by decide) (by decide +kernel)
    have hRefused : (badge.apply [.addFieldDefinition size]).diff draft =
        .error (.duplicateKey "enum values of field 'size'" "m") := by decide +kernel
    rw [hAgain] at hRefused
    cases hRefused

end CatalogSync
