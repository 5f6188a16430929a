import CatalogSync.Proofs.Advancing
import CatalogSync.Proofs.Processing
import CatalogSync.Remote.History

/-!
# Remotes on which a resource is found again

A remote is tidy if its resources are filed under their keys and differ in their identifiers, from
each other and from those that are still to be given out. Then a key and an identifier stand for the
same resource, whatever is scripted, and no call changes that.

## Main results

* `Remote.Tidy.create`, `Remote.Tidy.update`: every call leaves a tidy remote tidy.
* `Remote.Tidy.of_fetchAnswer`: a resource that is fetched by its identifier is the stored one.
* `Desk.Moves.tidy`: so does processing a draft.
-/

namespace CatalogSync

variable {F : Family} {σ : Type}

/-- A remote whose resources are filed under their keys and differ in their identifiers, from each
other and from those that are still to be given out. -/
structure Remote.Tidy (remote : Remote F) : Prop where
  own : ∀ {key resource}, remote.resources.get? key = some resource → F.key resource = key
  apart : ∀ {key other left right}, remote.resources.get? key = some left →
    remote.resources.get? other = some right → F.id left = F.id right → key = other
  fresh : ∀ {key resource}, remote.resources.get? key = some resource →
    ∀ n, remote.issued ≤ n → F.id resource ≠ remote.ids n
  distinct : Function.Injective remote.ids

namespace Remote

/-- A creation that answers a resource met a key without one, and used the next identifier. -/
theorem of_createAnswer {remote : Remote F} {draft : F.Draft} {resource : F.Resource}
    (hOk : remote.createAnswer draft = .ok (some resource)) :
    remote.resources.get? (F.keyOf draft) = none ∧
      resource = F.materialize draft (remote.ids remote.issued) := by
  obtain ⟨key, -, hKey, hFresh, -⟩ := fresh_of_createAnswer hOk
  constructor
  · rw [Family.keyOf_of_draftKey hKey]
    exact KeyMap.get?_eq_none hFresh
  · unfold createAnswer at hOk
    split at hOk
    · cases hOk
    · cases hOk
    · rw [hKey] at hOk
      simp only at hOk
      split at hOk
      · cases hOk
      · cases hOk
        rfl

end Remote

namespace Remote.Tidy

variable {remote after : Remote F} {draft : F.Draft} {current : F.Resource} {key : String}

/-- A remote stays tidy while its resources stay. -/
theorem congr (hTidy : remote.Tidy) (hResources : after.resources = remote.resources)
    (hIssued : after.issued = remote.issued) (hIds : after.ids = remote.ids) : after.Tidy := by
  refine ⟨?_, ?_, ?_, ?_⟩
  · rw [hResources]
    exact hTidy.own
  · rw [hResources]
    exact hTidy.apart
  · rw [hResources, hIssued, hIds]
    exact hTidy.fresh
  · rw [hIds]
    exact hTidy.distinct

theorem lookup (hTidy : remote.Tidy) (keys : KeySet) : (remote.lookup keys).2.Tidy :=
  hTidy.congr rfl rfl rfl

theorem fetch (hTidy : remote.Tidy) (id : String) : (remote.fetch id).2.Tidy :=
  hTidy.congr rfl rfl rfl

/-- A remote without resources is tidy. -/
theorem of_ids {ids : Nat → String} (hDistinct : Function.Injective ids) :
    Remote.Tidy ({ ids } : Remote F) where
  own hGet := by cases hGet
  apart hGet := by cases hGet
  fresh hGet := by cases hGet
  distinct := hDistinct

/-- A remote stays tidy when a resource is written whose identifier is not in use and is not to be
given out any more. -/
theorem put (hTidy : remote.Tidy)
    (hResources : after.resources = remote.resources.insert (F.key current) current)
    (hIds : after.ids = remote.ids) (hIssued : remote.issued ≤ after.issued)
    (hApart : ∀ {key other}, remote.resources.get? key = some other → F.id other ≠ F.id current)
    (hFresh : ∀ n, after.issued ≤ n → F.id current ≠ remote.ids n) : after.Tidy := by
  have hGet : ∀ {key resource}, after.resources.get? key = some resource →
      (key = F.key current ∧ resource = current) ∨
        remote.resources.get? key = some resource := by
    intro key resource hGet
    rw [hResources, KeyMap.get?_insert] at hGet
    split at hGet
    · rename_i hKey
      exact Or.inl ⟨hKey, (Option.some.inj hGet).symm⟩
    · exact Or.inr hGet
  refine ⟨?_, ?_, ?_, hIds ▸ hTidy.distinct⟩
  · intro key resource hStored
    rcases hGet hStored with ⟨rfl, rfl⟩ | hBefore
    · rfl
    · exact hTidy.own hBefore
  · intro key other left right hLeft hRight hId
    rcases hGet hLeft with ⟨hKey, rfl⟩ | hBefore
    · rcases hGet hRight with ⟨hOther, rfl⟩ | hBefore
      · exact hKey.trans hOther.symm
      · exact absurd hId.symm (hApart hBefore)
    · rcases hGet hRight with ⟨-, rfl⟩ | hOther
      · exact absurd hId (hApart hBefore)
      · exact hTidy.apart hBefore hOther hId
  · intro key resource hStored n hLe
    rw [hIds]
    rcases hGet hStored with ⟨-, rfl⟩ | hBefore
    · exact hFresh n hLe
    · exact hTidy.fresh hBefore n (Nat.le_trans hIssued hLe)

/-- A resource is the one that is found with its identifier. -/
theorem find?_of_stored (hTidy : remote.Tidy) (hStored : remote.resources.get? key = some current) :
    (remote.resources.values.find? fun resource => F.id resource == F.id current) =
      some current := by
  have hMem : current ∈ remote.resources.values :=
    List.mem_map.mpr ⟨_, KeyMap.get?_eq_some_iff.mp hStored, rfl⟩
  cases hFound : remote.resources.values.find? fun resource => F.id resource == F.id current with
  | none => exact absurd (List.find?_eq_none.mp hFound current hMem) (by simp)
  | some found =>
      have hId : F.id found = F.id current := by simpa using List.find?_some hFound
      obtain ⟨⟨other, _⟩, hEntry, rfl⟩ := List.mem_map.mp (List.mem_of_find?_eq_some hFound)
      have hOther := KeyMap.get?_eq_some_iff.mpr hEntry
      have hSame := hTidy.apart hOther hStored hId
      rw [hSame, hStored] at hOther
      rw [Option.some.inj hOther]

/-- A resource that is fetched by the identifier of a stored one is the stored one. -/
theorem of_fetchAnswer (hTidy : remote.Tidy) (hStored : remote.resources.get? key = some current)
    {latest : F.Resource} (hOk : remote.fetchAnswer (F.id current) = .ok (some latest)) :
    latest = current := by
  unfold fetchAnswer at hOk
  split at hOk
  · cases hOk
  · cases hOk
  · rw [hTidy.find?_of_stored hStored] at hOk
    cases hOk
    rfl

/-- A remote stays tidy when a draft is to be created, whatever the answer. -/
theorem create (hTidy : remote.Tidy) (hAdvances : F.Advances)
    (hOwn : ∀ id, F.key (F.materialize draft id) = F.keyOf draft) :
    (remote.create draft).2.Tidy := by
  have hCongr (hResources : (remote.create draft).2.resources = remote.resources)
      (hIssued : (remote.create draft).2.issued = remote.issued) :
      (remote.create draft).2.Tidy := hTidy.congr hResources hIssued rfl
  have hWritten := @create_write F remote draft
  have hIssued := @create_issued F remote draft
  have hCall : (remote.create draft).1 = remote.createAnswer draft := rfl
  rw [creation] at hWritten
  rw [hCall] at hIssued
  cases hAnswer : remote.createAnswer draft with
  | error fault =>
      rw [hAnswer] at hWritten hIssued
      exact hCongr hWritten hIssued
  | ok answer =>
      rw [hAnswer] at hWritten hIssued
      cases answer with
      | none => exact hCongr hWritten hIssued
      | some resource =>
          obtain ⟨-, rfl⟩ := of_createAnswer hAnswer
          have hNew := hAdvances.id_materialize draft (remote.ids remote.issued)
          have hPut : (remote.create draft).2.resources = remote.resources.insert
              (F.key (F.materialize draft (remote.ids remote.issued)))
              (F.materialize draft (remote.ids remote.issued)) := by
            rw [hOwn]
            exact hWritten
          refine hTidy.put hPut rfl ?_ (fun hStored => ?_) fun n hLe hSame => ?_
          · rw [hIssued]
            exact Nat.le_succ _
          · rw [hNew]
            exact hTidy.fresh hStored _ (Nat.le_refl _)
          · have hEq := hTidy.distinct (hNew.symm.trans hSame)
            simp only at hIssued
            omega

/-- A remote stays tidy when a resource is to be updated, whatever the answer. -/
theorem update (hTidy : remote.Tidy) (hAdvances : F.Advances) (old : F.Resource)
    (actions : List F.Action) : (remote.update old actions).2.Tidy := by
  cases hAnswer : remote.updateAnswer old actions with
  | error fault =>
      refine hTidy.congr ?_ rfl rfl
      rw [Remote.update_write, Remote.change, hAnswer]
      rfl
  | ok updated =>
      obtain ⟨stored, hStored, -, rfl⟩ := Remote.stored_of_updateAnswer hAnswer
      have hWritten : (remote.update old actions).2.resources =
          remote.resources.insert (F.key old) (F.apply stored actions) := by
        rw [Remote.update_write, Remote.change, hAnswer]
        rfl
      -- Whatever is found now has the identifier of what was found before.
      have hBefore : ∀ {key resource},
          (remote.update old actions).2.resources.get? key = some resource →
            ∃ before, remote.resources.get? key = some before ∧ F.id resource = F.id before ∧
              F.key resource = F.key before := by
        intro key resource hGet
        rw [hWritten, KeyMap.get?_insert] at hGet
        split at hGet
        · rename_i hKey
          cases hGet
          exact ⟨stored, hKey ▸ hStored, hAdvances.id_apply .., hAdvances.key_apply ..⟩
        · exact ⟨resource, hGet, rfl, rfl⟩
      refine ⟨?_, ?_, ?_, hTidy.distinct⟩
      · intro key resource hGet
        obtain ⟨before, hGetBefore, -, hKey⟩ := hBefore hGet
        exact hKey.trans (hTidy.own hGetBefore)
      · intro key other left right hLeft hRight hId
        obtain ⟨leftBefore, hLeftBefore, hLeftId, -⟩ := hBefore hLeft
        obtain ⟨rightBefore, hRightBefore, hRightId, -⟩ := hBefore hRight
        refine hTidy.apart hLeftBefore hRightBefore ?_
        rw [← hLeftId, hId, hRightId]
      · intro key resource hGet n hLe
        obtain ⟨before, hGetBefore, hId, -⟩ := hBefore hGet
        rw [hId]
        exact hTidy.fresh hGetBefore n hLe

end Remote.Tidy

/-- No step of a desk makes a tidy remote untidy. -/
theorem Desk.Moves.tidy {options : Options F σ} {draft : F.Draft} {before after : Desk F σ}
    (hMoves : Moves options draft before after) (hLawful : F.Lawful)
    (hTidy : before.world.remote.Tidy) : after.world.remote.Tidy := by
  refine keeps_of_reflTransGen (P := fun desk => desk.world.remote.Tidy) hMoves ?_ hTidy
  intro earlier later hMove hBefore
  cases hMove with
  | note => exact hBefore
  | remember world hRemote _ =>
      show world.remote.Tidy
      rw [hRemote]
      exact hBefore
  | create asked kept _ => exact hBefore.create hLawful.toAdvances (hLawful.key_materialize kept)
  | update asked old proposed actions _ _ => exact hBefore.update hLawful.toAdvances old actions
  | fetch old => exact hBefore.fetch (F.id old)

end CatalogSync
