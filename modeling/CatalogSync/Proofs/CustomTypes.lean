import CatalogSync.Catalog.CustomType.Diff
import CatalogSync.Proofs.Performing
import Mathlib.Algebra.Group.Nat.Defs

/-!
# Differences of custom types converge

The fields of a custom type are treated exactly, but the remote neither removes nor changes an enum
value. The values of a shared field grow: those that the draft lacks stay where they are among each
other, behind those that it names if these had to be reordered.

## Main results

* `plainValues_performs`, `localizedValues_performs`: the enum values of one field.
* `fields_performs`: the fields of a custom type.
* `foldl_diff`: what all actions for a draft leave.
* `typeSettled_merged`: what becomes of the type of a shared field.
* `apply_diff_settles`: a custom type is brought as close to the draft as it can be.
* `diff_eq_nil`: a custom type that is as close to a draft as it can be asks for nothing.
-/

namespace CatalogSync.CustomType

open KeyedList (Policy Regime Grown modifyFirst_append)

variable {customType : CustomType} {front back : List FieldDefinition} {actions : List Action}
  {name : String} {label : LocalizedText}

/-! ## One field among others -/

/-- The custom type with a field between some others. -/
def around (customType : CustomType) (front back : List FieldDefinition) (field : FieldDefinition) :
    CustomType :=
  { customType with fieldDefinitions := front ++ field :: back }

/-- A field is found behind fields with other names. -/
theorem onField_around (field : FieldDefinition)
    (hFront : ¬ field.name ∈ front.map FieldDefinition.name)
    {f : FieldDefinition → FieldDefinition} :
    (customType.around front back field).onField field.name f =
      customType.around front back (f field) := by
  have hOthers : ∀ other ∈ front, ¬ (other.name == field.name) = true := by
    intro other hOther hSame
    exact hFront (beq_iff_eq.mp hSame ▸ List.mem_map_of_mem hOther)
  unfold onField around
  rw [modifyFirst_append hOthers (beq_self_eq_true field.name)]

/-! ## The enum values of one field -/

theorem plainValues_performs (customType : CustomType) (back : List FieldDefinition)
    (label : LocalizedText) (hFront : ¬ name ∈ front.map FieldDefinition.name) :
    (plainValues name).Performs .additive perform fun values =>
      customType.around front back ⟨name, label, .enum values⟩ where
  remove removed values := rfl
  add values value position := onField_around ⟨name, label, .enum values⟩ hFront
  change {before after actions} hKey hChange := by
    cases hChange
    exact ⟨hKey, fun _ _ _ => rfl⟩
  reorder {order action} hAction _ values := by
    cases hAction
    exact onField_around ⟨name, label, .enum values⟩ hFront

theorem localizedValues_performs (customType : CustomType) (back : List FieldDefinition)
    (label : LocalizedText) (hFront : ¬ name ∈ front.map FieldDefinition.name) :
    (localizedValues name).Performs .additive perform fun values =>
      customType.around front back ⟨name, label, .localizedEnum values⟩ where
  remove removed values := rfl
  add values value position := onField_around ⟨name, label, .localizedEnum values⟩ hFront
  change {before after actions} hKey hChange := by
    cases hChange
    exact ⟨hKey, fun _ _ _ => rfl⟩
  reorder {order action} hAction _ values := by
    cases hAction
    exact onField_around ⟨name, label, .localizedEnum values⟩ hFront

/-! ## The fields -/

/-- What becomes of the type of a field that is to be changed into another one of its kind. -/
def mergedType (name : String) : ValueType → ValueType → ValueType
  | .enum old, .enum new => .enum ((plainValues name).result .additive old new)
  | .localizedEnum old, .localizedEnum new =>
      .localizedEnum ((localizedValues name).result .additive old new)
  | _, new => new

/-- What becomes of a field that is to be changed into another one of its name. -/
def merged (before after : FieldDefinition) : FieldDefinition :=
  ⟨after.name, after.label, mergedType after.name before.fieldType after.fieldType⟩

/-- Fields are removed, and changed except for the enum values that are there. -/
def fieldRegime : Regime FieldDefinition := ⟨true, merged⟩

/-- The actions for the type of a field leave the merged type. -/
theorem foldl_diffType (hFront : ¬ name ∈ front.map FieldDefinition.name) {old new : ValueType}
    (hOk : diffType name old new = .ok actions) :
    actions.foldl perform (customType.around front back ⟨name, label, old⟩) =
      customType.around front back ⟨name, label, mergedType name old new⟩ := by
  unfold diffType at hOk
  split at hOk
  · exact (plainValues_performs customType back label hFront).foldl_reconcile hOk
  · exact (localizedValues_performs customType back label hFront).foldl_reconcile hOk
  · rename_i hPlain hLocalized
    split at hOk
    · rename_i hKind
      cases hOk
      have hSame : mergedType name old new = old := by
        unfold mergedType
        split
        · exact (hPlain _ _ rfl rfl).elim
        · exact (hLocalized _ _ rfl rfl).elim
        · exact (ValueType.eq_of_kind_eq hKind hPlain hLocalized).symm
      rw [hSame]
      rfl
    · cases hOk

/-- The remote does with fields what the actions for them say, except for enum values. -/
theorem fields_performs (customType : CustomType) :
    fieldPolicy.Performs fieldRegime perform fun fieldDefinitions =>
      { customType with fieldDefinitions } where
  remove removed fields :=
    Policy.foldl_removeEach FieldDefinition.name Action.removeFieldDefinition
      (fun fieldDefinitions => { customType with fieldDefinitions }) (fun _ _ => rfl) removed fields
  add fields field position := rfl
  change {before after actions} hKey hChange := by
    refine ⟨rfl, fun front back hNodup => ?_⟩
    have hFront : ¬ before.name ∈ front.map FieldDefinition.name :=
      Policy.not_mem_keys_front hNodup
    obtain ⟨name, label, old⟩ := before
    obtain ⟨_, newLabel, new⟩ := after
    cases hKey
    obtain ⟨changes, hType, hActions⟩ := Refusal.bind_eq_ok_iff.mp hChange
    cases hActions
    have hStep : perform (customType.around front back ⟨name, label, old⟩)
        (.changeFieldDefinitionLabel name newLabel) =
          customType.around front back ⟨name, newLabel, old⟩ :=
      onField_around ⟨name, label, old⟩ hFront
    have hLabel := Field.foldl_change (fun label => customType.around front back ⟨name, label, old⟩)
      hStep
    rw [List.foldl_append]
    exact (congrArg (changes.foldl perform) hLabel).trans (foldl_diffType hFront hType)
  reorder {order action} hAction _ fields := by
    cases hAction
    rfl

/-! ## The custom type -/

/-- What the actions for a draft leave, before the version is advanced. -/
theorem foldl_diff {old : CustomType} {new : Draft} (hDiff : diff old new = .ok actions) :
    actions.foldl perform old =
      { old with
        name := new.name
        description := new.description
        fieldDefinitions :=
          fieldPolicy.result fieldRegime old.fieldDefinitions new.fieldDefinitions } := by
  obtain ⟨changes, hReconcile, hActions⟩ := Refusal.bind_eq_ok_iff.mp hDiff
  cases hActions
  have hNamed := Field.foldl_change (fun name => { old with name })
    (rfl : perform old (.changeName new.name) = { old with name := new.name })
  have hDescribed : (Field.setOrClear old.description new.description (.setDescription <| some ·)
      (.setDescription none)).toList.foldl perform { old with name := new.name } =
        { old with name := new.name, description := new.description } :=
    Field.foldl_setOrClear (fun description => { old with name := new.name, description })
      (fun _ => rfl) rfl
  have hFields := (fields_performs
    { old with name := new.name, description := new.description }).foldl_reconcile hReconcile
  rw [List.foldl_append, List.foldl_append, hNamed, hDescribed, hFields]

/-- What is left of the old and the wanted type of a field: enum values are only added and
reordered. -/
inductive TypeSettled : ValueType → ValueType → ValueType → Prop
  | text : TypeSettled .text .text .text
  | number : TypeSettled .number .number .number
  | boolean : TypeSettled .boolean .boolean .boolean
  | enum {old wanted values : List (EnumValue String)}
      (hGrown : Grown EnumValue.key old wanted values) :
      TypeSettled (.enum old) (.enum wanted) (.enum values)
  | localizedEnum {old wanted values : List (EnumValue LocalizedText)}
      (hGrown : Grown EnumValue.key old wanted values) :
      TypeSettled (.localizedEnum old) (.localizedEnum wanted) (.localizedEnum values)

/-- A field is as close to the wanted one as the old fields allow. -/
structure FieldSettled (old : List FieldDefinition) (wanted field : FieldDefinition) : Prop where
  name : field.name = wanted.name
  label : field.label = wanted.label
  /-- A field that was not there is the wanted one. -/
  added : ¬ wanted.name ∈ old.map FieldDefinition.name → field = wanted
  /-- The type of a field that was there is settled. -/
  shared : ∀ before ∈ old, before.name = wanted.name →
    TypeSettled before.fieldType wanted.fieldType field.fieldType

/-- A custom type is as close to a draft as the old fields allow. -/
structure Settled (old : List FieldDefinition) (new : Draft) (customType : CustomType) : Prop where
  name : customType.name = new.name
  description : customType.description = new.description
  /-- The fields are those of the draft in its order. -/
  fields : List.Forall₂ (FieldSettled old) new.fieldDefinitions customType.fieldDefinitions

/-- The merged type is settled unless the change is refused. -/
theorem typeSettled_merged {old new : ValueType} (hOk : diffType name old new = .ok actions) :
    TypeSettled old new (mergedType name old new) := by
  unfold diffType at hOk
  split at hOk
  · obtain ⟨hOld, hNew, -⟩ := Policy.reconcile_eq_ok_iff.mp hOk
    exact .enum (Policy.result_additive hOld hNew rfl rfl)
  · obtain ⟨hOld, hNew, -⟩ := Policy.reconcile_eq_ok_iff.mp hOk
    exact .localizedEnum (Policy.result_additive hOld hNew rfl rfl)
  · rename_i hPlain hLocalized
    split at hOk
    · rename_i hKind
      have hSame := ValueType.eq_of_kind_eq hKind hPlain hLocalized
      subst hSame
      cases old with
      | text => exact .text
      | number => exact .number
      | boolean => exact .boolean
      | enum values => exact (hPlain values values rfl rfl).elim
      | localizedEnum values => exact (hLocalized values values rfl rfl).elim
    · cases hOk

/-- The fields that are left are settled. -/
theorem fieldsSettled {old new : List FieldDefinition}
    (hOk : fieldPolicy.reconcile old (some new) = .ok actions) :
    List.Forall₂ (FieldSettled old) new (fieldPolicy.result fieldRegime old new) := by
  obtain ⟨hOld, hNew, changed, hChanges, -⟩ := Policy.reconcile_eq_ok_iff.mp hOk
  have hKeeps : fieldPolicy.KeepsKeys fieldRegime old new := fun _ _ _ _ _ => rfl
  refine KeyedList.forall₂_of_keys (Policy.keys_result_of_removes hOld hNew hKeeps rfl rfl).symm ?_
  intro wanted hWanted field hField hKey
  obtain ⟨after, hAfter, hSame, hCases⟩ := Policy.of_mem_result hNew hKeeps rfl hField
  obtain rfl := List.inj_on_of_nodup_map hNew hWanted hAfter (hKey.trans hSame)
  rcases hCases with ⟨rfl, hFresh⟩ | ⟨before, hBefore, hName, rfl⟩
  · refine ⟨rfl, rfl, fun _ => rfl, fun before hBefore hName => absurd ?_ hFresh⟩
    have hOldName : before.name ∈ fieldPolicy.keys old := List.mem_map_of_mem hBefore
    rwa [hName] at hOldName
  · obtain ⟨change, hChange⟩ := Policy.change_of_changes hChanges hOld hBefore hWanted hName
    obtain ⟨changes, hType, -⟩ := Refusal.bind_eq_ok_iff.mp hChange
    refine ⟨rfl, rfl, fun hFresh => absurd ?_ hFresh, fun other hOther hOtherName => ?_⟩
    · have hOldName : fieldPolicy.key before ∈ fieldPolicy.keys old := List.mem_map_of_mem hBefore
      rwa [hName] at hOldName
    · obtain rfl := List.inj_on_of_nodup_map hOld hOther hBefore (hOtherName.trans hName.symm)
      exact typeSettled_merged hType

/-- The custom type after the actions for a draft. -/
theorem apply_eq {old : CustomType} {new : Draft} (hDiff : diff old new = .ok actions) :
    old.apply actions =
      { old with
        version := old.version + 1
        name := new.name
        description := new.description
        fieldDefinitions :=
          fieldPolicy.result fieldRegime old.fieldDefinitions new.fieldDefinitions } := by
  simp only [apply, foldl_diff hDiff]

/-- The actions for a draft settle a custom type. -/
theorem settled_apply {old : CustomType} {new : Draft} (hDiff : diff old new = .ok actions) :
    Settled old.fieldDefinitions new (old.apply actions) := by
  obtain ⟨changes, hReconcile, -⟩ := Refusal.bind_eq_ok_iff.mp hDiff
  rw [apply_eq hDiff]
  exact ⟨rfl, rfl, fieldsSettled hReconcile⟩

/--
A custom type is brought as close to a draft as the remote allows whenever the draft is not refused:
only enum values that were there before can differ from the draft. What the remote assigns stays,
except for the version.
-/
theorem apply_diff_settles {old : CustomType} {new : Draft}
    (hVersion : old.version.toNat < 2 ^ 64 - 1) (hDiff : diff old new = .ok actions) :
    Settled old.fieldDefinitions new (old.apply actions) ∧
      (old.apply actions).id = old.id ∧ (old.apply actions).key = old.key ∧
      (old.apply actions).version.toNat = old.version.toNat + 1 := by
  have hNext : (old.version + 1).toNat = old.version.toNat + 1 := by
    rw [UInt64.toNat_add, UInt64.toNat_one, Nat.mod_eq_of_lt (Nat.add_lt_of_lt_sub hVersion)]
  refine ⟨settled_apply hDiff, ?_⟩
  rw [apply_eq hDiff]
  exact ⟨rfl, rfl, hNext⟩

theorem apply_diff_settles_badge :
    let label := LocalizedText.of "en"
    let level : FieldDefinition :=
      ⟨"level", label "Level", .enum [⟨"gold", "Gold"⟩, ⟨"tin", "Tin"⟩, ⟨"silver", "Silver"⟩]⟩
    let owner : FieldDefinition := ⟨"owner", label "Owner", .text⟩
    let area : FieldDefinition :=
      ⟨"area", label "Area", .localizedEnum [⟨"north", label "North"⟩, ⟨"south", label "South"⟩]⟩
    let newArea : FieldDefinition :=
      ⟨"area", label "Region", .localizedEnum [⟨"south", label "S"⟩, ⟨"north", label "N"⟩]⟩
    let since : FieldDefinition := ⟨"since", label "Since", .number⟩
    let newLevel : FieldDefinition :=
      ⟨"level", label "Level", .enum [⟨"silver", "Ag"⟩, ⟨"iron", "Iron"⟩, ⟨"gold", "Au"⟩]⟩
    let old : CustomType := ⟨"1", "badge", 3, label "Badge", none, [level, owner, area]⟩
    let new : Draft :=
      ⟨some "badge", label "Badge", some (label "Awards"), [newArea, since, newLevel]⟩
    let actions : List Action :=
      [ .setDescription (some (label "Awards")), .removeFieldDefinition "owner"
      , .addFieldDefinition since, .changeFieldDefinitionLabel "area" (label "Region")
      , .changeLocalizedEnumValueOrder "area" ["south", "north"]
      , .addEnumValue "level" ⟨"iron", "Iron"⟩
      , .changeEnumValueOrder "level" ["silver", "iron", "gold"]
      , .changeFieldDefinitionOrder ["area", "since", "level"] ]
    old.version.toNat < 2 ^ 64 - 1 ∧ diff old new = .ok actions ∧
      Settled old.fieldDefinitions new (old.apply actions) ∧
      (old.apply actions).id = old.id ∧ (old.apply actions).key = old.key ∧
      (old.apply actions).version.toNat = old.version.toNat + 1 := by
  intro label level owner area newArea since newLevel old new actions
  have hVersion : old.version.toNat < 2 ^ 64 - 1 := by decide
  have hDiff : diff old new = .ok actions := by decide +kernel
  exact ⟨hVersion, hDiff, apply_diff_settles hVersion hDiff⟩

/-! ## Nothing to do -/

/-- The fields of a draft have different names, and the values of each have different keys. -/
structure Draft.WellKeyed (draft : Draft) : Prop where
  fields : (draft.fieldDefinitions.map FieldDefinition.name).Nodup
  values : ∀ field ∈ draft.fieldDefinitions, field.fieldType.WellKeyed

/-- A list that grew by what a policy without removals and changes adds asks for nothing. -/
theorem reconcile_of_grown {ε : Type} {policy : Policy ε Action} {old wanted list : List ε}
    (hGrown : Grown policy.key old wanted list) (hWanted : (policy.keys wanted).Nodup)
    (hRemove : ∀ removed, policy.remove removed = [])
    (hChange : ∀ before after, policy.change before after = .ok []) :
    policy.reconcile list (some wanted) = .ok [] := by
  refine Policy.reconcile_eq_nil hGrown.nodup hWanted ?_ (fun after hAfter => ?_)
    (Policy.reordering_eq_nil hGrown.order)
  · unfold Policy.removals
    split
    · rfl
    · exact hRemove _
  · have hKey : policy.key after ∈ wanted.map policy.key := List.mem_map_of_mem hAfter
    rw [← hGrown.order] at hKey
    obtain ⟨before, hBefore, hSame⟩ := List.mem_map.mp (List.mem_filter.mp hKey).1
    exact ⟨before, hBefore, hSame, hChange before after⟩

/-- A settled type asks for nothing more. -/
theorem diffType_of_typeSettled {old wanted type : ValueType}
    (hSettled : TypeSettled old wanted type) (hKeyed : wanted.WellKeyed) :
    diffType name type wanted = .ok [] := by
  cases hSettled with
  | enum hGrown =>
      rw [diffType]
      exact reconcile_of_grown hGrown hKeyed (fun _ => rfl) fun _ _ => rfl
  | localizedEnum hGrown =>
      rw [diffType]
      exact reconcile_of_grown hGrown hKeyed (fun _ => rfl) fun _ _ => rfl
  | _ => rfl

/-- A type asks for nothing to become itself. -/
theorem diffType_self {type : ValueType} (hKeyed : type.WellKeyed) :
    diffType name type type = .ok [] := by
  cases type with
  | enum values =>
      rw [diffType]
      exact Policy.reconcile_self hKeyed fun _ _ => rfl
  | localizedEnum values =>
      rw [diffType]
      exact Policy.reconcile_self hKeyed fun _ _ => rfl
  | _ => rfl

/-- A settled field asks for nothing more. -/
theorem diffField_of_fieldSettled {old : List FieldDefinition} {wanted field : FieldDefinition}
    (hSettled : FieldSettled old wanted field) (hKeyed : wanted.fieldType.WellKeyed) :
    diffField field wanted = .ok [] := by
  have hType : diffType wanted.name field.fieldType wanted.fieldType = .ok [] := by
    by_cases hOld : wanted.name ∈ old.map FieldDefinition.name
    · obtain ⟨before, hBefore, hName⟩ := List.mem_map.mp hOld
      exact diffType_of_typeSettled (hSettled.shared before hBefore hName) hKeyed
    · rw [hSettled.added hOld]
      exact diffType_self hKeyed
  simp only [diffField, hType, hSettled.label, Field.change_self]
  rfl

/-- The custom type that is created from a draft is settled. -/
theorem settled_ofDraft (draft : Draft) (id : String) : Settled [] draft (ofDraft draft id) where
  name := rfl
  description := rfl
  fields := List.forall₂_same.mpr fun _ _ =>
    ⟨rfl, rfl, fun _ => rfl, fun _ hBefore => absurd hBefore List.not_mem_nil⟩

/-- A settled custom type asks for nothing more. -/
theorem diff_eq_nil {old : List FieldDefinition} {draft : Draft}
    (hSettled : Settled old draft customType) (hKeyed : draft.WellKeyed) :
    diff customType draft = .ok [] := by
  have hFields : fieldPolicy.reconcile customType.fieldDefinitions (some draft.fieldDefinitions) =
      .ok [] := by
    refine Policy.reconcile_of_forall₂ hKeyed.fields ?_
    have hBoth := (List.forall₂_and_left _ _).mpr
      ⟨fun wanted (hMem : wanted ∈ draft.fieldDefinitions) => hMem, hSettled.fields⟩
    refine hBoth.imp fun wanted field hPair => ⟨hPair.2.name.symm, ?_⟩
    exact diffField_of_fieldSettled hPair.2 (hKeyed.values wanted hPair.1)
  simp only [diff, hFields, hSettled.name, hSettled.description, Field.change_self,
    Field.setOrClear_self]
  rfl

end CatalogSync.CustomType
