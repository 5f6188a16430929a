import CatalogSync.Catalog.CustomType.Diff
import CatalogSync.Catalog.ProductType.Diff
import CatalogSync.Proofs.Reconciling

/-!
# Which refusal a draft meets

A difference is refused for a key that is repeated, in the old list before the new one, or for a
shared element that cannot be changed, the first of the draft before the others. `Refused` says so
without the actions that would be built otherwise. The types of attributes and fields clash if their
kinds differ, or if enum values repeat a key.

## Main results

* `KeyedList.firstRepeated_eq_some_iff`: which key is reported.
* `KeyedList.Policy.changes_eq_error_iff`: the first change that fails decides.
* `KeyedList.Policy.reconcile_eq_error_iff_refused`: when reconciling is refused, and for which
  reason.
* `ProductType.diffType_eq_error_iff`, `CustomType.diffType_eq_error_iff`: when a type is refused.
* `refused_iff`: when product types and custom types are refused, and for which reason.
-/

namespace CatalogSync

namespace KeyedList

variable {ε α : Type}

/-! ## Refusals of keyed lists -/

/-- A key is the first one of a list that repeats an earlier one. -/
def FirstRepeat (keys : List String) (key : String) : Prop :=
  ∃ front back, keys = front ++ key :: back ∧ front.Nodup ∧ key ∈ front

/-- A refusal of two lists because a key is repeated, in the old list or else in the new one. -/
inductive Repeats (collection : String) (old new : List String) : Refusal → Prop
  | old {key : String} (hOld : FirstRepeat old key) :
      Repeats collection old new (.duplicateKey collection key)
  | new {key : String} (hOld : old.Nodup) (hNew : FirstRepeat new key) :
      Repeats collection old new (.duplicateKey collection key)

/-- A refusal of two lists because a key is repeated or else because shared elements clash. -/
inductive Refused (collection : String) (key : ε → String) (Clashes : ε → ε → Refusal → Prop)
    (old new : List ε) : Refusal → Prop
  | repeats {refusal : Refusal}
      (hRepeats : Repeats collection (old.map key) (new.map key) refusal) :
      Refused collection key Clashes old new refusal
  | clash {refusal : Refusal} {front back : List ε} {before after : ε}
      (hOld : (old.map key).Nodup) (hNew : (new.map key).Nodup)
      (hSplit : new = front ++ after :: back) (hBefore : before ∈ old)
      (hKey : key before = key after) (hClashes : Clashes before after refusal)
      (hFirst : ∀ earlier ∈ front, ∀ other ∈ old, key other = key earlier →
        ∀ refusal, ¬ Clashes other earlier refusal) :
      Refused collection key Clashes old new refusal

/-- The key that is reported repeats an earlier one or one that was seen before, and it is the first
one that does. -/
theorem firstRepeatedAfter_eq_some_iff {seen keys : List String} {key : String} :
    firstRepeatedAfter seen keys = some key ↔
      ∃ front back, keys = front ++ key :: back ∧ front.Nodup ∧ (∀ other ∈ front, other ∉ seen) ∧
        (key ∈ seen ∨ key ∈ front) := by
  induction keys generalizing seen with
  | nil => simp [firstRepeatedAfter]
  | cons head tail ih =>
      unfold firstRepeatedAfter
      split
      · rename_i hSeen
        constructor
        · intro hHead
          cases hHead
          exact ⟨[], tail, rfl, List.nodup_nil, by simp, Or.inl hSeen⟩
        · rintro ⟨front, back, hSplit, -, hFresh, -⟩
          cases front with
          | nil =>
              rw [List.nil_append, List.cons.injEq] at hSplit
              rw [hSplit.1]
          | cons first front =>
              rw [List.cons_append, List.cons.injEq] at hSplit
              exact absurd (hSplit.1 ▸ hSeen) (hFresh first (List.mem_cons_self ..))
      · rename_i hHead
        rw [ih]
        constructor
        · rintro ⟨front, back, rfl, hNodup, hFresh, hKey⟩
          refine ⟨head :: front, back, rfl, List.nodup_cons.mpr ⟨fun hMem => ?_, hNodup⟩, ?_, ?_⟩
          · exact hFresh head hMem (List.mem_cons_self ..)
          · intro other hOther
            rcases List.mem_cons.mp hOther with rfl | hOther
            · exact hHead
            · exact fun hSeen => hFresh other hOther (List.mem_cons_of_mem _ hSeen)
          · simpa [or_assoc, or_left_comm] using hKey
        · rintro ⟨front, back, hSplit, hNodup, hFresh, hKey⟩
          cases front with
          | nil =>
              rw [List.nil_append, List.cons.injEq] at hSplit
              exact absurd (hKey.resolve_right List.not_mem_nil) (hSplit.1 ▸ hHead)
          | cons first front =>
              rw [List.cons_append, List.cons.injEq] at hSplit
              obtain ⟨rfl, rfl⟩ := hSplit
              obtain ⟨hApart, hNodup⟩ := List.nodup_cons.mp hNodup
              refine ⟨front, back, rfl, hNodup, fun other hOther hMem => ?_, ?_⟩
              · rcases List.mem_cons.mp hMem with rfl | hSeen
                · exact hApart hOther
                · exact hFresh other (List.mem_cons_of_mem _ hOther) hSeen
              · simpa [or_assoc, or_left_comm] using hKey

/-- The key that is reported is the first one that repeats an earlier one. -/
theorem firstRepeated_eq_some_iff {keys : List String} {key : String} :
    firstRepeated keys = some key ↔ FirstRepeat keys key := by
  simp [firstRepeated, firstRepeatedAfter_eq_some_iff, FirstRepeat]

namespace Policy

variable {policy : Policy ε α} {old new list : List ε} {refusal : Refusal}

theorem checkKeys_eq_error_iff : policy.checkKeys list = .error refusal ↔
    ∃ key, FirstRepeat (policy.keys list) key ∧ refusal = .duplicateKey policy.collection key := by
  simp only [← firstRepeated_eq_some_iff, checkKeys]
  cases firstRepeated (policy.keys list) with
  | none => simp
  | some key => simp [eq_comm]

/-- The change of an old element into a new one of its key is refused. -/
def Fails (policy : Policy ε α) (old : List ε) (after : ε) (refusal : Refusal) : Prop :=
  ∃ before ∈ old, policy.key before = policy.key after ∧
    policy.change before after = .error refusal

/-- Changes are refused as that of the first element is, or else as the others are. -/
theorem changes_cons_eq_error_iff (hOld : (policy.keys old).Nodup) {after : ε} {rest : List ε} :
    policy.changes old (after :: rest) = .error refusal ↔
      policy.Fails old after refusal ∨
        ((∀ other, ¬ policy.Fails old after other) ∧ policy.changes old rest = .error refusal) := by
  rw [changes]
  cases hFind : policy.find? old (policy.key after) with
  | none =>
      have hNever : ∀ other, ¬ policy.Fails old after other := by
        rintro other ⟨before, hBefore, hKey, -⟩
        exact find?_eq_none_iff.mp hFind (hKey ▸ List.mem_map_of_mem hBefore)
      refine Refusal.bind_pure_eq_error_iff.trans ⟨fun hError => Or.inr ⟨hNever, hError⟩, ?_⟩
      rintro (hFails | ⟨-, hError⟩)
      · exact absurd hFails (hNever refusal)
      · exact hError
  | some before =>
      -- No other old element has this key, so the change of this one is the only one that can fail.
      have hFails : ∀ other, policy.Fails old after other ↔
          policy.change before after = .error other := by
        intro other
        obtain ⟨hBefore, hKey⟩ := (find?_eq_some_iff hOld).mp hFind
        refine ⟨?_, fun hChange => ⟨before, hBefore, hKey, hChange⟩⟩
        rintro ⟨element, hElement, hSame, hChange⟩
        rwa [List.inj_on_of_nodup_map hOld hBefore hElement (hKey.trans hSame.symm)]
      simp only [hFails]
      refine Refusal.bind_eq_error_iff.trans (or_congr_right ⟨?_, ?_⟩)
      · rintro ⟨first, hOk, hError⟩
        exact ⟨Refusal.exists_eq_ok_iff.mp ⟨first, hOk⟩, Refusal.bind_pure_eq_error_iff.mp hError⟩
      · rintro ⟨hOk, hError⟩
        obtain ⟨first, hFirst⟩ := Refusal.exists_eq_ok_iff.mpr hOk
        exact ⟨first, hFirst, Refusal.bind_pure_eq_error_iff.mpr hError⟩

/-- Changes are refused as the first one is that fails, in the order of the new list. -/
theorem changes_eq_error_iff (hOld : (policy.keys old).Nodup) :
    policy.changes old new = .error refusal ↔
      ∃ front after back, new = front ++ after :: back ∧ policy.Fails old after refusal ∧
        ∀ earlier ∈ front, ∀ other, ¬ policy.Fails old earlier other := by
  induction new with
  | nil => simp [changes]
  | cons head rest ih =>
      rw [changes_cons_eq_error_iff hOld, ih]
      constructor
      · rintro (hHead | ⟨hHead, front, after, back, rfl, hAfter, hFirst⟩)
        · exact ⟨[], head, rest, rfl, hHead, by simp⟩
        · refine ⟨head :: front, after, back, rfl, hAfter, fun earlier hEarlier => ?_⟩
          rcases List.mem_cons.mp hEarlier with rfl | hEarlier
          · exact hHead
          · exact hFirst earlier hEarlier
      · rintro ⟨front, after, back, hSplit, hAfter, hFirst⟩
        cases front with
        | nil =>
            rw [List.nil_append, List.cons.injEq] at hSplit
            exact Or.inl (hSplit.1 ▸ hAfter)
        | cons first front =>
            rw [List.cons_append, List.cons.injEq] at hSplit
            obtain ⟨rfl, rfl⟩ := hSplit
            exact Or.inr ⟨hFirst head (List.mem_cons_self ..), front, after, back, rfl, hAfter,
              fun earlier hEarlier => hFirst earlier (List.mem_cons_of_mem _ hEarlier)⟩

/-- Lists are not reconciled if one of them repeats a key, or else if the changes are refused. -/
theorem reconcile_eq_error_iff : policy.reconcile old (some new) = .error refusal ↔
    Repeats policy.collection (policy.keys old) (policy.keys new) refusal ∨
      ((policy.keys old).Nodup ∧ (policy.keys new).Nodup ∧
        policy.changes old new = .error refusal) := by
  refine Refusal.bind_eq_error_iff.trans ⟨?_, ?_⟩
  · rintro (hOld | ⟨_, hOld, hError⟩)
    · obtain ⟨key, hRepeat, rfl⟩ := checkKeys_eq_error_iff.mp hOld
      exact Or.inl (.old hRepeat)
    · have hOld := checkKeys_eq_ok_iff.mp hOld
      rcases Refusal.bind_eq_error_iff.mp hError with hNew | ⟨_, hNew, hError⟩
      · obtain ⟨key, hRepeat, rfl⟩ := checkKeys_eq_error_iff.mp hNew
        exact Or.inl (.new hOld hRepeat)
      · exact Or.inr ⟨hOld, checkKeys_eq_ok_iff.mp hNew,
          Refusal.bind_pure_eq_error_iff.mp hError⟩
  · rintro (hRepeats | ⟨hOld, hNew, hError⟩)
    · cases hRepeats with
      | old hRepeat => exact Or.inl (checkKeys_eq_error_iff.mpr ⟨_, hRepeat, rfl⟩)
      | new hOld hRepeat =>
          refine Or.inr ⟨(), checkKeys_eq_ok_iff.mpr hOld, Refusal.bind_eq_error_iff.mpr ?_⟩
          exact Or.inl (checkKeys_eq_error_iff.mpr ⟨_, hRepeat, rfl⟩)
    · refine Or.inr ⟨(), checkKeys_eq_ok_iff.mpr hOld, Refusal.bind_eq_error_iff.mpr ?_⟩
      exact Or.inr ⟨(), checkKeys_eq_ok_iff.mpr hNew, Refusal.bind_pure_eq_error_iff.mpr hError⟩

/-- When lists are not reconciled, and why. -/
theorem reconcile_eq_error_iff_refused {Clashes : ε → ε → Refusal → Prop}
    (hChange : ∀ before after refusal,
      policy.change before after = .error refusal ↔ Clashes before after refusal) :
    policy.reconcile old (some new) = .error refusal ↔
      Refused policy.collection policy.key Clashes old new refusal := by
  rw [reconcile_eq_error_iff]
  constructor
  · rintro (hRepeats | ⟨hOld, hNew, hError⟩)
    · exact .repeats hRepeats
    · obtain ⟨front, after, back, hSplit, ⟨before, hBefore, hKey, hFails⟩, hFirst⟩ :=
        (changes_eq_error_iff hOld).mp hError
      refine .clash hOld hNew hSplit hBefore hKey ((hChange _ _ _).mp hFails) ?_
      intro earlier hEarlier other hOther hSame otherRefusal hClashes
      exact hFirst earlier hEarlier otherRefusal
        ⟨other, hOther, hSame, (hChange _ _ _).mpr hClashes⟩
  · intro hRefused
    cases hRefused with
    | repeats hRepeats => exact Or.inl hRepeats
    | clash hOld hNew hSplit hBefore hKey hClashes hFirst =>
        refine Or.inr ⟨hOld, hNew, (changes_eq_error_iff hOld).mpr ⟨_, _, _, hSplit,
          ⟨_, hBefore, hKey, (hChange _ _ _).mpr hClashes⟩, ?_⟩⟩
        rintro earlier hEarlier otherRefusal ⟨other, hOther, hSame, hFails⟩
        exact hFirst earlier hEarlier other hOther hSame otherRefusal ((hChange _ _ _).mp hFails)

/-- Lists whose elements can always be changed are reconciled unless one of them repeats a key. -/
theorem reconcile_eq_error_iff_repeats
    (hTotal : ∀ before after refusal, policy.change before after ≠ .error refusal) :
    policy.reconcile old (some new) = .error refusal ↔
      Repeats policy.collection (policy.keys old) (policy.keys new) refusal := by
  refine reconcile_eq_error_iff.trans (or_iff_left ?_)
  rintro ⟨hOld, -, hError⟩
  obtain ⟨front, after, back, -, ⟨before, -, -, hFails⟩, -⟩ := (changes_eq_error_iff hOld).mp hError
  exact hTotal before after refusal hFails

end Policy

end KeyedList

open KeyedList (Policy Repeats Refused)

/-! ## Types of attributes and fields -/

/-- A refusal to turn a type into another one, where the subject says whose type it is: types of
different kinds, or enumerations of one kind that repeat a key. -/
inductive ValueType.Clashes (subject : String) : ValueType → ValueType → Refusal → Prop
  | kinds {old new : ValueType} (hKinds : old.kind ≠ new.kind) :
      Clashes subject old new
        (.unsupportedChange subject s!"type changed from {old.kind} to {new.kind}")
  | plain {old new : List (EnumValue String)} {refusal : Refusal}
      (hRepeats : Repeats s!"enum values of {subject}" (old.map EnumValue.key)
        (new.map EnumValue.key) refusal) :
      Clashes subject (.enum old) (.enum new) refusal
  | localized {old new : List (EnumValue LocalizedText)} {refusal : Refusal}
      (hRepeats : Repeats s!"localized enum values of {subject}" (old.map EnumValue.key)
        (new.map EnumValue.key) refusal) :
      Clashes subject (.localizedEnum old) (.localizedEnum new) refusal

/-- A difference of types that is taken as those of the catalog are is refused if the types clash. -/
theorem ValueType.eq_error_iff_clashes {α : Type} {subject : String}
    {diffType : ValueType → ValueType → Except Refusal (List α)}
    (hPlain : ∀ old new refusal, diffType (.enum old) (.enum new) = .error refusal ↔
      Repeats s!"enum values of {subject}" (old.map EnumValue.key) (new.map EnumValue.key) refusal)
    (hLocalized : ∀ old new refusal,
      diffType (.localizedEnum old) (.localizedEnum new) = .error refusal ↔
        Repeats s!"localized enum values of {subject}" (old.map EnumValue.key)
          (new.map EnumValue.key) refusal)
    (hOther : ∀ old new,
      (∀ values others, old = .enum values → new = .enum others → False) →
      (∀ values others, old = .localizedEnum values → new = .localizedEnum others → False) →
        diffType old new = if old.kind = new.kind then .ok []
          else .error (.unsupportedChange subject s!"type changed from {old.kind} to {new.kind}"))
    {old new : ValueType} {refusal : Refusal} :
    diffType old new = .error refusal ↔ Clashes subject old new refusal := by
  -- Two enumerations of one kind are compared by their values, all other types by their kinds.
  by_cases hBothPlain : ∃ values others, old = .enum values ∧ new = .enum others
  · obtain ⟨values, others, rfl, rfl⟩ := hBothPlain
    rw [hPlain]
    refine ⟨.plain, fun hClashes => ?_⟩
    cases hClashes with
    | kinds hKinds => exact absurd rfl hKinds
    | plain hRepeats => exact hRepeats
  by_cases hBothLocalized : ∃ values others, old = .localizedEnum values ∧ new = .localizedEnum others
  · obtain ⟨values, others, rfl, rfl⟩ := hBothLocalized
    rw [hLocalized]
    refine ⟨.localized, fun hClashes => ?_⟩
    cases hClashes with
    | kinds hKinds => exact absurd rfl hKinds
    | localized hRepeats => exact hRepeats
  rw [hOther old new (fun values others hOld hNew => hBothPlain ⟨values, others, hOld, hNew⟩)
    fun values others hOld hNew => hBothLocalized ⟨values, others, hOld, hNew⟩]
  split
  · rename_i hKind
    refine ⟨nofun, fun hClashes => ?_⟩
    cases hClashes with
    | kinds hKinds => exact absurd hKind hKinds
    | plain => exact absurd ⟨_, _, rfl, rfl⟩ hBothPlain
    | localized => exact absurd ⟨_, _, rfl, rfl⟩ hBothLocalized
  · rename_i hKinds
    constructor
    · intro hError
      cases hError
      exact .kinds hKinds
    · intro hClashes
      cases hClashes with
      | kinds => rfl
      | plain => exact absurd rfl hKinds
      | localized => exact absurd rfl hKinds

/-- A text in front of a quoted name. -/
theorem append_quoted {front middle whole name : String} (hWhole : front ++ middle = whole) :
    whole ++ name ++ "'" = front ++ (middle ++ name ++ "'") := by
  rw [← String.append_assoc, ← String.append_assoc, hWhole]

/-! ## Product types -/

namespace ProductType

variable {name : String} {refusal : Refusal}

theorem collection_plainValues :
    (plainValues name).collection = "enum values of " ++ s!"attribute '{name}'" :=
  append_quoted (by decide)

theorem collection_localizedValues :
    (localizedValues name).collection = "localized enum values of " ++ s!"attribute '{name}'" :=
  append_quoted (by decide)

/-- When the type of an attribute is refused, and why. -/
theorem diffType_eq_error_iff {old new : ValueType} :
    diffType name old new = .error refusal ↔
      ValueType.Clashes s!"attribute '{name}'" old new refusal := by
  refine ValueType.eq_error_iff_clashes (fun old new refusal => ?_) (fun old new refusal => ?_)
    (diffType.eq_3 name)
  · exact collection_plainValues ▸ Policy.reconcile_eq_error_iff_repeats nofun
  · exact collection_localizedValues ▸ Policy.reconcile_eq_error_iff_repeats nofun

/-- A refusal of a draft because of its attributes. -/
def Refused (old : ProductType) (draft : Draft) : Refusal → Prop :=
  KeyedList.Refused "attribute definitions" AttributeDefinition.name
    (fun before after => ValueType.Clashes s!"attribute '{after.name}'" before.attributeType
      after.attributeType)
    old.attributes (draft.attributes.getD [])

/-- A draft is refused because of its attributes and for no other reason. -/
theorem diff_eq_error_iff {old : ProductType} {draft : Draft} :
    diff old draft = .error refusal ↔ old.Refused draft refusal := by
  refine Refusal.bind_pure_eq_error_iff.trans ?_
  rw [Policy.reconcile_getD]
  refine Policy.reconcile_eq_error_iff_refused fun before after refusal => ?_
  exact Refusal.bind_pure_eq_error_iff.trans diffType_eq_error_iff

/-- Of two attributes that clash, the one that the draft names first is reported. -/
example :
    let label := LocalizedText.of "en"
    let old : ProductType := ⟨"1", "shirt", 1, "Shirt", "",
      [ ⟨"size", label "Size", .number⟩
      , ⟨"color", label "Color", .enum [⟨"red", "Red"⟩, ⟨"red", "Scarlet"⟩]⟩ ]⟩
    let draft : Draft := ⟨some "shirt", "Shirt", "",
      some [⟨"color", label "Color", .enum []⟩, ⟨"size", label "Size", .text⟩]⟩
    diff old draft = .error (.duplicateKey "enum values of attribute 'color'" "red") := by
  decide +kernel

end ProductType

/-! ## Custom types -/

namespace CustomType

variable {name : String} {refusal : Refusal}

theorem collection_plainValues :
    (plainValues name).collection = "enum values of " ++ s!"field '{name}'" :=
  append_quoted (by decide)

theorem collection_localizedValues :
    (localizedValues name).collection = "localized enum values of " ++ s!"field '{name}'" :=
  append_quoted (by decide)

/-- When the type of a field is refused, and why. -/
theorem diffType_eq_error_iff {old new : ValueType} :
    diffType name old new = .error refusal ↔
      ValueType.Clashes s!"field '{name}'" old new refusal := by
  refine ValueType.eq_error_iff_clashes (fun old new refusal => ?_) (fun old new refusal => ?_)
    (diffType.eq_3 name)
  · exact collection_plainValues ▸ Policy.reconcile_eq_error_iff_repeats nofun
  · exact collection_localizedValues ▸ Policy.reconcile_eq_error_iff_repeats nofun

/-- A refusal of a draft because of its fields. -/
def Refused (old : CustomType) (draft : Draft) : Refusal → Prop :=
  KeyedList.Refused "field definitions" FieldDefinition.name
    (fun before after => ValueType.Clashes s!"field '{after.name}'" before.fieldType
      after.fieldType)
    old.fieldDefinitions draft.fieldDefinitions

/-- A draft is refused because of its fields and for no other reason. -/
theorem diff_eq_error_iff {old : CustomType} {draft : Draft} :
    diff old draft = .error refusal ↔ old.Refused draft refusal := by
  refine Refusal.bind_pure_eq_error_iff.trans ?_
  refine Policy.reconcile_eq_error_iff_refused fun before after refusal => ?_
  exact Refusal.bind_pure_eq_error_iff.trans diffType_eq_error_iff

end CustomType

/--
Product types and custom types are refused for exactly the reasons that their lists give, whatever
else is in a draft, and a draft without such a reason is accepted.
-/
theorem refused_iff :
    (∀ (old : ProductType) (draft : ProductType.Draft),
      (∀ refusal, old.diff draft = .error refusal ↔ old.Refused draft refusal) ∧
        ((∃ actions, old.diff draft = .ok actions) ↔ ∀ refusal, ¬ old.Refused draft refusal)) ∧
    ∀ (old : CustomType) (draft : CustomType.Draft),
      (∀ refusal, old.diff draft = .error refusal ↔ old.Refused draft refusal) ∧
        ((∃ actions, old.diff draft = .ok actions) ↔ ∀ refusal, ¬ old.Refused draft refusal) := by
  refine ⟨fun old draft => ⟨fun _ => ProductType.diff_eq_error_iff, ?_⟩,
    fun old draft => ⟨fun _ => CustomType.diff_eq_error_iff, ?_⟩⟩
  · simp only [← ProductType.diff_eq_error_iff]
    exact Refusal.exists_eq_ok_iff
  · simp only [← CustomType.diff_eq_error_iff]
    exact Refusal.exists_eq_ok_iff

end CatalogSync
