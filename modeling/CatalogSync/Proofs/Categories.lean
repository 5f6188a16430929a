import CatalogSync.Catalog.Category.Diff

/-!
# Differences of categories converge

A category takes over every member of a draft, except that an absent parent or order hint leaves the
current one as it is. Such a member asks for nothing afterwards either.

## Main results

* `foldl_diff`: what all actions for a draft leave.
* `diff_eq_nil`: a category in the state of a draft asks for nothing.
-/

namespace CatalogSync.Category

variable {category : Category} {draft : Draft}

/-- A category is in the state of a draft, which may leave the parent and the order hint open. -/
structure Matches (category : Category) (draft : Draft) : Prop where
  name : category.name = draft.name
  slug : category.slug = draft.slug
  description : category.description = draft.description
  parent : draft.parent = none ∨ category.parent = draft.parent
  orderHint : draft.orderHint = none ∨ category.orderHint = draft.orderHint
  externalId : category.externalId = draft.externalId

/-- The category that is created from a draft is in its state. -/
theorem matches_ofDraft (draft : Draft) (id : String) : (ofDraft draft id).Matches draft :=
  ⟨rfl, rfl, rfl, Or.inr rfl, Or.inr rfl, rfl⟩

/-- What the actions for a draft leave, before the version is advanced. -/
theorem foldl_diff (category : Category) (draft : Draft) :
    (diff category draft).foldl perform category =
      { category with
        name := draft.name
        slug := draft.slug
        description := draft.description
        parent := draft.parent.or category.parent
        orderHint := draft.orderHint.or category.orderHint
        externalId := draft.externalId } := by
  -- Each member is dealt with in whatever state the actions for the members before it have left.
  have hName : ∀ before : Category,
      (Field.change before.name draft.name (.changeName draft.name)).toList.foldl perform before =
        { before with name := draft.name } := by
    intro before
    refine Field.foldl_change (fun name => { before with name }) ?_
    rfl
  have hSlug : ∀ before : Category,
      (Field.change before.slug draft.slug (.changeSlug draft.slug)).toList.foldl perform before =
        { before with slug := draft.slug } := by
    intro before
    refine Field.foldl_change (fun slug => { before with slug }) ?_
    rfl
  have hDescription : ∀ before : Category,
      (Field.setOrClear before.description draft.description (.setDescription <| some ·)
          (.setDescription none)).toList.foldl perform before =
        { before with description := draft.description } := by
    intro before
    refine Field.foldl_setOrClear (fun description => { before with description })
      (fun _ => ?_) ?_ <;> rfl
  have hParent : ∀ before : Category,
      (Field.setIfGiven before.parent draft.parent .changeParent).toList.foldl perform before =
        { before with parent := draft.parent.or before.parent } := by
    intro before
    refine Field.foldl_setIfGiven (fun parent => { before with parent }) fun _ => ?_
    rfl
  have hOrderHint : ∀ before : Category,
      (Field.setIfGiven before.orderHint draft.orderHint .changeOrderHint).toList.foldl perform
          before =
        { before with orderHint := draft.orderHint.or before.orderHint } := by
    intro before
    refine Field.foldl_setIfGiven (fun orderHint => { before with orderHint }) fun _ => ?_
    rfl
  have hExternalId : ∀ before : Category,
      (Field.setOrClear before.externalId draft.externalId (.setExternalId <| some ·)
          (.setExternalId none)).toList.foldl perform before =
        { before with externalId := draft.externalId } := by
    intro before
    refine Field.foldl_setOrClear (fun externalId => { before with externalId })
      (fun _ => ?_) ?_ <;> rfl
  rw [diff, List.foldl_append, List.foldl_append, List.foldl_append, List.foldl_append,
    List.foldl_append, hName, hSlug, hDescription, hParent, hOrderHint, hExternalId]

/-- The category after the actions for a draft. -/
theorem apply_eq (category : Category) (draft : Draft) :
    category.apply (diff category draft) =
      { category with
        version := category.version + 1
        name := draft.name
        slug := draft.slug
        description := draft.description
        parent := draft.parent.or category.parent
        orderHint := draft.orderHint.or category.orderHint
        externalId := draft.externalId } := by
  simp only [apply, foldl_diff]

/-- The actions for a draft bring a category into its state. -/
theorem matches_apply (category : Category) (draft : Draft) :
    (category.apply (diff category draft)).Matches draft := by
  have hGiven : ∀ new old : Option String, new = none ∨ new.or old = new := by
    intro new old
    cases new with
    | none => exact Or.inl rfl
    | some value => exact Or.inr rfl
  rw [apply_eq]
  exact ⟨rfl, rfl, rfl, hGiven _ _, hGiven _ _, rfl⟩

/-- A category in the state of a draft asks for nothing. -/
theorem diff_eq_nil (hMatches : category.Matches draft) : diff category draft = [] := by
  have hParent : Field.setIfGiven category.parent draft.parent Action.changeParent = none :=
    Field.setIfGiven_eq_none_iff.mpr (hMatches.parent.imp_right beq_iff_eq.mpr)
  have hOrderHint :
      Field.setIfGiven category.orderHint draft.orderHint Action.changeOrderHint = none :=
    Field.setIfGiven_eq_none_iff.mpr (hMatches.orderHint.imp_right beq_iff_eq.mpr)
  simp only [diff, hMatches.name, hMatches.slug, hMatches.description, hMatches.externalId, hParent,
    hOrderHint, Field.change_self, Field.setOrClear_self]
  rfl

end CatalogSync.Category
