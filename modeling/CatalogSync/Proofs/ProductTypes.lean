import CatalogSync.Catalog.ProductType.Diff
import CatalogSync.Proofs.Performing
import Mathlib.Algebra.Group.Nat.Defs

/-!
# Differences of product types are exact

The actions for an attribute find it by its name, wherever it stands among attributes with other
names, so the enum values of one attribute are reconciled inside of the list of attributes as if
they were alone. Both levels are exact: the remote does everything that it is asked to.

## Main results

* `plainValues_performs`, `localizedValues_performs`: the enum values of one attribute.
* `attributes_performs`: the attributes of a product type.
* `foldl_diff`: what all actions for a draft leave.
* `apply_diff_matches`: a product type is brought into exactly the state of the draft.
* `diff_eq_nil`: a product type in the state of a draft asks for nothing.
-/

namespace CatalogSync.ProductType

open KeyedList (Policy Regime modifyFirst_append)

variable {productType : ProductType} {front back : List AttributeDefinition} {actions : List Action}

/-! ## One attribute among others -/

/-- The product type with an attribute between some others. -/
def around (productType : ProductType) (front back : List AttributeDefinition)
    (definition : AttributeDefinition) : ProductType :=
  { productType with attributes := front ++ definition :: back }

/-- An attribute is found behind attributes with other names. -/
theorem onAttribute_around (definition : AttributeDefinition)
    (hFront : ¬ definition.name ∈ front.map AttributeDefinition.name)
    {f : AttributeDefinition → AttributeDefinition} :
    (productType.around front back definition).onAttribute definition.name f =
      productType.around front back (f definition) := by
  unfold onAttribute around
  congr 1
  refine modifyFirst_append (fun other hOther hSame => ?_) (beq_self_eq_true definition.name)
  exact hFront (beq_iff_eq.mp hSame ▸ List.mem_map_of_mem hOther)

/-! ## The enum values of one attribute -/

/-- A new label for one of several values with different keys. -/
theorem relabel_append {Label : Type} {value : EnumValue Label} {front back : List (EnumValue Label)}
    (before : Label) (hAlone : ∀ other ∈ front ++ back, other.key ≠ value.key) :
    relabel value (front ++ ⟨value.key, before⟩ :: back) = front ++ value :: back := by
  have hOthers : ∀ values : List (EnumValue Label), (∀ other ∈ values, other.key ≠ value.key) →
      relabel value values = values := fun values hValues =>
    (List.map_congr_left fun other hOther => if_neg (hValues other hOther)).trans
      (List.map_id values)
  have hFront := hOthers front fun other hOther => hAlone other (List.mem_append_left _ hOther)
  have hBack := hOthers back fun other hOther => hAlone other (List.mem_append_right _ hOther)
  unfold relabel at hFront hBack ⊢
  rw [List.map_append, List.map_cons, hFront, hBack, if_pos rfl]

/-- The policy of enum values that are removed, relabelled, added and reordered by given actions. -/
def valuePolicy {Label : Type} [DecidableEq Label] (collection : String)
    (remove : List String → Action) (relabel add : EnumValue Label → Action)
    (reorder : List (EnumValue Label) → Action) : Policy (EnumValue Label) Action where
  collection
  key := EnumValue.key
  remove removed := [remove (removed.map (·.key))]
  change old new := .ok (Field.change old.label new.label (relabel new)).toList
  add value _ := add value
  reorder values := some (reorder values)

/-- The remote does with enum values what the actions for them say, if each action finds them. -/
theorem valuePolicy_performs {Label : Type} [DecidableEq Label] {collection : String}
    {remove : List String → Action} {relabelling add : EnumValue Label → Action}
    {reorder : List (EnumValue Label) → Action} {embed : List (EnumValue Label) → ProductType}
    (hRemove : ∀ keys values, (embed values).perform (remove keys) = embed (withoutKeys keys values))
    (hRelabel : ∀ value values,
      (embed values).perform (relabelling value) = embed (relabel value values))
    (hAdd : ∀ value values, (embed values).perform (add value) = embed (values ++ [value]))
    (hReorder : ∀ order values,
      (embed values).perform (reorder order) = embed (reorderValues order values)) :
    (valuePolicy collection remove relabelling add reorder).Performs .exact perform embed where
  remove removed values := hRemove (removed.map EnumValue.key) values
  add values value position := hAdd value values
  change {before after actions} hKey hChange := by
    cases hChange
    refine ⟨rfl, fun front back hNodup => ?_⟩
    have hAlone : ∀ other ∈ front ++ back, other.key ≠ after.key := by
      intro other hOther hSame
      exact Policy.key_ne_of_mem_around hNodup hOther (hSame.trans hKey.symm)
    have hStep : perform (embed (front ++ ⟨after.key, before.label⟩ :: back)) (relabelling after) =
        embed (front ++ after :: back) := by
      rw [hRelabel, relabel_append before.label hAlone]
    have hSame : before = ⟨after.key, before.label⟩ :=
      congrArg (EnumValue.mk · before.label) hKey
    rw [hSame]
    exact Field.foldl_change (fun label => embed (front ++ ⟨after.key, label⟩ :: back)) hStep
  reorder {order action} hAction _ values := by
    cases hAction
    exact hReorder order values

variable {name : String} {label : LocalizedText}

theorem plainValues_performs (productType : ProductType) (back : List AttributeDefinition)
    (label : LocalizedText) (hFront : ¬ name ∈ front.map AttributeDefinition.name) :
    (plainValues name).Performs .exact perform fun values =>
      productType.around front back ⟨name, label, .enum values⟩ := by
  have hFound : ∀ f values,
      (productType.around front back ⟨name, label, .enum values⟩).onPlainValues name f =
        productType.around front back ⟨name, label, .enum (f values)⟩ := fun f values =>
    onAttribute_around ⟨name, label, .enum values⟩ hFront
  refine valuePolicy_performs (fun keys values => ?_) (fun value => hFound _) (fun value => hFound _)
    fun order => hFound _
  show ((productType.around front back ⟨name, label, .enum values⟩).onPlainValues name
    (withoutKeys keys)).onLocalizedValues name (withoutKeys keys) = _
  rw [hFound]
  exact onAttribute_around ⟨name, label, .enum (withoutKeys keys values)⟩ hFront

theorem localizedValues_performs (productType : ProductType) (back : List AttributeDefinition)
    (label : LocalizedText) (hFront : ¬ name ∈ front.map AttributeDefinition.name) :
    (localizedValues name).Performs .exact perform fun values =>
      productType.around front back ⟨name, label, .localizedEnum values⟩ := by
  have hFound : ∀ f values,
      (productType.around front back ⟨name, label, .localizedEnum values⟩).onLocalizedValues name f =
        productType.around front back ⟨name, label, .localizedEnum (f values)⟩ := fun f values =>
    onAttribute_around ⟨name, label, .localizedEnum values⟩ hFront
  refine valuePolicy_performs (fun keys values => ?_) (fun value => hFound _) (fun value => hFound _)
    fun order => hFound _
  -- The action names no kind of label; the half of it for plain labels finds nothing to change.
  have hPlain : (productType.around front back ⟨name, label, .localizedEnum values⟩).onPlainValues
      name (withoutKeys keys) = productType.around front back ⟨name, label, .localizedEnum values⟩ :=
    onAttribute_around ⟨name, label, .localizedEnum values⟩ hFront
  show ((productType.around front back ⟨name, label, .localizedEnum values⟩).onPlainValues name
    (withoutKeys keys)).onLocalizedValues name (withoutKeys keys) = _
  rw [hPlain, hFound]

/-! ## The attributes -/

/-- The actions for the type of an attribute leave the new type. -/
theorem foldl_diffType (hFront : ¬ name ∈ front.map AttributeDefinition.name) {old new : ValueType}
    (hOk : diffType name old new = .ok actions) :
    actions.foldl perform (productType.around front back ⟨name, label, old⟩) =
      productType.around front back ⟨name, label, new⟩ := by
  unfold diffType at hOk
  split at hOk
  · obtain ⟨hOld, hNew, -⟩ := Policy.reconcile_eq_ok_iff.mp hOk
    have hValues := (plainValues_performs productType back label hFront).foldl_reconcile hOk
    rwa [Policy.result_exact hOld hNew rfl] at hValues
  · obtain ⟨hOld, hNew, -⟩ := Policy.reconcile_eq_ok_iff.mp hOk
    have hValues := (localizedValues_performs productType back label hFront).foldl_reconcile hOk
    rwa [Policy.result_exact hOld hNew rfl] at hValues
  · rename_i hPlain hLocalized
    split at hOk
    · rename_i hKind
      cases hOk
      rw [ValueType.eq_of_kind_eq hKind hPlain hLocalized]
      rfl
    · cases hOk

/-- The remote does with attributes what the actions for them say. -/
theorem attributes_performs (productType : ProductType) :
    attributePolicy.Performs .exact perform fun attributes => { productType with attributes } where
  remove removed attributes :=
    Policy.foldl_removeEach AttributeDefinition.name Action.removeAttributeDefinition
      (fun attributes => { productType with attributes }) (fun _ _ => rfl) removed attributes
  add attributes definition position := rfl
  change {before after actions} hKey hChange := by
    refine ⟨rfl, fun front back hNodup => ?_⟩
    have hFront : ¬ before.name ∈ front.map AttributeDefinition.name :=
      Policy.not_mem_keys_front hNodup
    obtain ⟨name, label, old⟩ := before
    obtain ⟨_, newLabel, new⟩ := after
    cases hKey
    obtain ⟨changes, hType, hActions⟩ := Refusal.bind_eq_ok_iff.mp hChange
    cases hActions
    have hStep : perform (productType.around front back ⟨name, label, old⟩)
        (.changeAttributeDefinitionLabel name newLabel) =
          productType.around front back ⟨name, newLabel, old⟩ :=
      onAttribute_around ⟨name, label, old⟩ hFront
    have hLabel := Field.foldl_change (fun label => productType.around front back ⟨name, label, old⟩)
      hStep
    rw [List.foldl_append]
    exact (congrArg (changes.foldl perform) hLabel).trans (foldl_diffType hFront hType)
  reorder {order action} hAction _ attributes := by
    cases hAction
    rfl

/-! ## The product type -/

/-- A product type is in the state of a draft. -/
structure Matches (productType : ProductType) (draft : Draft) : Prop where
  name : productType.name = draft.name
  description : productType.description = draft.description
  attributes : productType.attributes = draft.attributes.getD []

/-- What the actions for a draft leave, before the version is advanced. -/
theorem foldl_diff {old : ProductType} {new : Draft} (hDiff : diff old new = .ok actions) :
    actions.foldl perform old =
      { old with
        name := new.name
        description := new.description
        attributes := new.attributes.getD [] } := by
  obtain ⟨changes, hReconcile, hActions⟩ := Refusal.bind_eq_ok_iff.mp hDiff
  cases hActions
  rw [Policy.reconcile_getD] at hReconcile
  obtain ⟨hOld, hNew, -⟩ := Policy.reconcile_eq_ok_iff.mp hReconcile
  have hNamed := Field.foldl_change (fun name => { old with name })
    (rfl : perform old (.changeName new.name) = { old with name := new.name })
  have hDescribed := Field.foldl_change
    (fun description => { old with name := new.name, description })
    (rfl : perform { old with name := new.name } (.changeDescription new.description) =
      { old with name := new.name, description := new.description })
  have hAttributes := (attributes_performs
    { old with name := new.name, description := new.description }).foldl_reconcile hReconcile
  rw [Policy.result_exact hOld hNew rfl] at hAttributes
  rw [List.foldl_append, List.foldl_append, hNamed, hDescribed, hAttributes]

/-- The product type after the actions for a draft. -/
theorem apply_eq {old : ProductType} {new : Draft} (hDiff : diff old new = .ok actions) :
    old.apply actions =
      { old with
        version := old.version + 1
        name := new.name
        description := new.description
        attributes := new.attributes.getD [] } := by
  simp only [apply, foldl_diff hDiff]

/--
A product type is brought into exactly the state of a draft whenever the draft is not refused. What
the remote assigns stays, except for the version. Only a product type in the state of the draft
already asks for nothing.
-/
theorem apply_diff_matches {old : ProductType} {new : Draft}
    (hVersion : old.version.toNat < 2 ^ 64 - 1)
    (hDiff : diff old new = .ok actions) :
    (old.apply actions).Matches new ∧
      (old.apply actions).id = old.id ∧ (old.apply actions).key = old.key ∧
      (old.apply actions).version.toNat = old.version.toNat + 1 ∧
      (actions = [] → old.Matches new) := by
  have hNext : (old.version + 1).toNat = old.version.toNat + 1 := by
    rw [UInt64.toNat_add, UInt64.toNat_one, Nat.mod_eq_of_lt (Nat.add_lt_of_lt_sub hVersion)]
  rw [apply_eq hDiff]
  refine ⟨⟨rfl, rfl, rfl⟩, rfl, rfl, hNext, fun hNothing => ?_⟩
  have hLeft := foldl_diff hDiff
  rw [hNothing, List.foldl_nil] at hLeft
  rw [hLeft]
  exact ⟨rfl, rfl, rfl⟩

theorem apply_diff_matches_shirt :
    let label := LocalizedText.of "en"
    let color : AttributeDefinition :=
      ⟨"color", label "Color", .enum [⟨"red", "Red"⟩, ⟨"green", "Green"⟩, ⟨"blue", "Blue"⟩]⟩
    let size : AttributeDefinition := ⟨"size", label "Size", .number⟩
    let fabric : AttributeDefinition :=
      ⟨"fabric", label "Fabric", .localizedEnum [⟨"wool", label "Wool"⟩, ⟨"silk", label "Silk"⟩]⟩
    let newFabric : AttributeDefinition :=
      ⟨"fabric", label "Cloth", .localizedEnum [⟨"silk", label "Silk"⟩, ⟨"linen", label "Linen"⟩]⟩
    let brand : AttributeDefinition := ⟨"brand", label "Brand", .text⟩
    let newColor : AttributeDefinition :=
      ⟨"color", label "Color", .enum [⟨"blue", "Navy"⟩, ⟨"black", "Black"⟩, ⟨"red", "Red"⟩]⟩
    let old : ProductType := ⟨"1", "shirt", 7, "Shirt", "Shirts", [color, size, fabric]⟩
    let new : Draft := ⟨some "shirt", "Shirt", "All shirts", some [newFabric, brand, newColor]⟩
    let actions : List Action :=
      [ .changeDescription "All shirts", .removeAttributeDefinition "size"
      , .addAttributeDefinition brand, .changeAttributeDefinitionLabel "fabric" (label "Cloth")
      , .removeEnumValues "fabric" ["wool"]
      , .addLocalizedEnumValue "fabric" ⟨"linen", label "Linen"⟩
      , .removeEnumValues "color" ["green"], .addPlainEnumValue "color" ⟨"black", "Black"⟩
      , .changePlainEnumValueLabel "color" ⟨"blue", "Navy"⟩
      , .changePlainEnumValueOrder "color" [⟨"blue", "Navy"⟩, ⟨"black", "Black"⟩, ⟨"red", "Red"⟩]
      , .changeAttributeOrder [newFabric, brand, newColor] ]
    old.version.toNat < 2 ^ 64 - 1 ∧ diff old new = .ok actions ∧ (old.apply actions).Matches new ∧
      (old.apply actions).id = old.id ∧ (old.apply actions).key = old.key ∧
      (old.apply actions).version.toNat = old.version.toNat + 1 ∧
      (actions = [] → old.Matches new) := by
  intro label color size fabric newFabric brand newColor old new actions
  have hVersion : old.version.toNat < 2 ^ 64 - 1 := by decide
  have hDiff : diff old new = .ok actions := by decide +kernel
  exact ⟨hVersion, hDiff, apply_diff_matches hVersion hDiff⟩

/-! ## Nothing to do -/

/-- The attributes of a draft have different names, and the values of each have different keys. -/
structure Draft.WellKeyed (draft : Draft) : Prop where
  attributes : ((draft.attributes.getD []).map AttributeDefinition.name).Nodup
  values : ∀ definition ∈ draft.attributes.getD [], definition.attributeType.WellKeyed

/-- A type asks for nothing to become itself. -/
theorem diffType_self {type : ValueType} (hKeyed : type.WellKeyed) :
    diffType name type type = .ok [] := by
  cases type with
  | enum values =>
      have hSelf : ∀ value ∈ values, (plainValues name).change value value = .ok [] := by
        intro value _
        show Except.ok (Field.change value.label value.label _).toList = _
        rw [Field.change_self, Option.toList_none]
      rw [diffType]
      exact Policy.reconcile_self hKeyed hSelf
  | localizedEnum values =>
      have hSelf : ∀ value ∈ values, (localizedValues name).change value value = .ok [] := by
        intro value _
        show Except.ok (Field.change value.label value.label _).toList = _
        rw [Field.change_self, Option.toList_none]
      rw [diffType]
      exact Policy.reconcile_self hKeyed hSelf
  | _ => rfl

/-- A product type in the state of a draft asks for nothing. -/
theorem diff_eq_nil {draft : Draft} (hMatches : productType.Matches draft)
    (hKeyed : draft.WellKeyed) :
    diff productType draft = .ok [] := by
  have hAttributes : attributePolicy.reconcile productType.attributes draft.attributes = .ok [] := by
    rw [hMatches.attributes, Policy.reconcile_getD]
    refine Policy.reconcile_self hKeyed.attributes fun definition hDefinition => ?_
    show diffAttribute definition definition = .ok []
    simp only [diffAttribute, diffType_self (hKeyed.values definition hDefinition),
      Field.change_self]
    rfl
  simp only [diff, hAttributes, hMatches.name, hMatches.description, Field.change_self]
  rfl

end CatalogSync.ProductType
