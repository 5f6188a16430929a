/-!
# Differences of a single field

Each builder compares one field of a resource with the same field of a draft and yields at most one
action. Fields compare by `==`, so amounts compare as numbers and all other values by content. The
difference of a family is the concatenation of these results in the order of its fields.

## Main results

* `Field.change_eq_none_iff`, `Field.setOrClear_eq_none_iff`, `Field.setIfGiven_eq_none_iff`: when
  a field asks for no action.
* `Field.eq_of_change`, `Field.eq_of_setOrClear`, `Field.eq_of_setIfGiven`: what the action is if
  there is one.
* `Field.foldl_change`, `Field.foldl_setOrClear`, `Field.foldl_setIfGiven`: the value that the action
  leaves, in whatever holds the field.
-/

namespace CatalogSync.Field

variable {α β : Type} [BEq α]

/-- For a field that is always there: the action when the values differ. -/
def change (old new : α) (action : β) : Option β := if old == new then none else some action

/-- For a field that can be cleared: an absent new value clears a present old one. -/
def setOrClear (old new : Option α) (set : α → β) (clear : β) : Option β :=
  match old, new with
  | some old, some new => change old new (set new)
  | none, some new => some (set new)
  | some _, none => some clear
  | none, none => none

/-- For a field that can be set but not cleared: an absent new value keeps the old one. -/
def setIfGiven (old new : Option α) (set : α → β) : Option β :=
  match old, new with
  | some old, some new => change old new (set new)
  | none, some new => some (set new)
  | _, none => none

theorem change_eq_none_iff {old new : α} {action : β} :
    change old new action = none ↔ (old == new) = true := by
  simp [change]

/-- A field asks for nothing to keep its value. -/
theorem change_self [ReflBEq α] {value : α} {action : β} : change value value action = none :=
  change_eq_none_iff.mpr BEq.rfl

theorem setOrClear_eq_none_iff {old new : Option α} {set : α → β} {clear : β} :
    setOrClear old new set clear = none ↔ (old == new) = true := by
  cases old <;> cases new <;> simp [setOrClear, change_eq_none_iff]

theorem setOrClear_self [ReflBEq α] {value : Option α} {set : α → β} {clear : β} :
    setOrClear value value set clear = none := setOrClear_eq_none_iff.mpr BEq.rfl

theorem setIfGiven_eq_none_iff {old new : Option α} {set : α → β} :
    setIfGiven old new set = none ↔ new = none ∨ (old == new) = true := by
  cases old <;> cases new <;> simp [setIfGiven, change_eq_none_iff]

theorem eq_of_change {old new : α} {action other : β} (hSome : change old new action = some other) :
    other = action := by
  unfold change at hSome
  split at hSome
  · cases hSome
  · exact (Option.some.inj hSome).symm

theorem eq_of_setOrClear {old new : Option α} {set : α → β} {clear other : β}
    (hSome : setOrClear old new set clear = some other) :
    (∃ value, new = some value ∧ other = set value) ∨ (new = none ∧ other = clear) := by
  unfold setOrClear at hSome
  split at hSome
  · exact Or.inl ⟨_, rfl, eq_of_change hSome⟩
  · exact Or.inl ⟨_, rfl, (Option.some.inj hSome).symm⟩
  · exact Or.inr ⟨rfl, (Option.some.inj hSome).symm⟩
  · cases hSome

theorem eq_of_setIfGiven {old new : Option α} {set : α → β} {other : β}
    (hSome : setIfGiven old new set = some other) : ∃ value, new = some value ∧ other = set value := by
  unfold setIfGiven at hSome
  split at hSome
  · exact ⟨_, rfl, eq_of_change hSome⟩
  · exact ⟨_, rfl, (Option.some.inj hSome).symm⟩
  · cases hSome

section

variable {S : Type} [LawfulBEq α] {step : S → β → S}

/-- In the end the field has the new value. -/
theorem foldl_change (embed : α → S) {old new : α} {action : β}
    (hStep : step (embed old) action = embed new) :
    (change old new action).toList.foldl step (embed old) = embed new := by
  unfold change
  split
  · rename_i hSame
    rw [← eq_of_beq hSame]
    rfl
  · exact hStep

/-- In the end the field has the new value, or none if that is absent. -/
theorem foldl_setOrClear (embed : Option α → S) {old new : Option α} {set : α → β} {clear : β}
    (hSet : ∀ value, step (embed old) (set value) = embed (some value))
    (hClear : step (embed old) clear = embed none) :
    (setOrClear old new set clear).toList.foldl step (embed old) = embed new := by
  unfold setOrClear
  split
  · exact foldl_change (fun value => embed (some value)) (hSet _)
  · exact hSet _
  · exact hClear
  · rfl

/-- In the end the field has the new value, or the old one if that is absent. -/
theorem foldl_setIfGiven (embed : Option α → S) {old new : Option α} {set : α → β}
    (hSet : ∀ value, step (embed old) (set value) = embed (some value)) :
    (setIfGiven old new set).toList.foldl step (embed old) = embed (new.or old) := by
  unfold setIfGiven
  split
  · exact foldl_change (fun value => embed (some value)) (hSet _)
  · exact hSet _
  · cases old <;> rfl

end

end CatalogSync.Field
