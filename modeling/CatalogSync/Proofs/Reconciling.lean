import CatalogSync.KeyedList.Reconcile
import CatalogSync.Proofs.Arranging

/-!
# What becomes of a reconciled list

A remote need not do everything that it is asked to. Its `Regime` says whether it removes elements
and what a change makes of an element. `Policy.result` is the list that such a remote ends up with:
the elements that are kept, with the added ones placed among them and the changes made, in the order
of the new list if it has to be arranged. One development covers lists that end up as the new list
and lists that only grow.

## Main results

* `Policy.reconcile_eq_ok_iff`: when lists are reconciled.
* `Policy.result_perm`, `Policy.keys_result`: what is there, and that the new keys stand in order.
* `Policy.result_exact`: a remote that does everything ends up with the new list.
* `Policy.result_additive`: what a remote ends up with that neither removes nor changes anything.
* `Policy.of_mem_result`: where an element comes from if everything was removed that had to be.
* `Policy.reconcile_eq_nil`, `Policy.reconcile_self`: when nothing is asked for.
-/

namespace CatalogSync.KeyedList

/--
How a remote treats the elements of a list: whether it removes those that it is asked to remove, and
what an element becomes that it is asked to change into another one of its key.
-/
structure Regime (ε : Type) where
  removes : Bool
  merge : ε → ε → ε

/-- Elements are removed, and a change is made completely. -/
def Regime.exact {ε : Type} : Regime ε := ⟨true, fun _ after => after⟩

/-- Elements are neither removed nor changed. -/
def Regime.additive {ε : Type} : Regime ε := ⟨false, fun before _ => before⟩

/-- A list that grew from an old one by what another list adds, and took on the order of that list.
-/
structure Grown {ε : Type} (key : ε → String) (old wanted list : List ε) : Prop where
  /-- The old elements are still there, unchanged. -/
  stays : ∀ element ∈ old, element ∈ list
  /-- What has no old key are the wanted elements without an old key, in the wanted order. -/
  added : list.filter (fun element => !(old.map key).contains (key element)) =
    wanted.filter fun element => !(old.map key).contains (key element)
  /-- The wanted keys are there in the wanted order. -/
  order : (list.map key).filter (wanted.map key).contains = wanted.map key
  /-- What is not wanted are the old elements that are not wanted, in the old order. -/
  rest : list.filter (fun element => !(wanted.map key).contains (key element)) =
    old.filter fun element => !(wanted.map key).contains (key element)
  /-- No key is there twice. -/
  nodup : (list.map key).Nodup

namespace Policy

variable {ε α : Type}

/-! ## The list that a remote ends up with -/

section

variable (policy : Policy ε α) (regime : Regime ε)

/-- The list after an element was added that stands at a position of the new list. -/
def place (list : List ε) (element : ε) (position : Nat) : List ε :=
  match policy.placement with
  | .append => list ++ [element]
  | .atPosition => list.insertIdx (min position list.length) element

/-- The list after an element and its position were looked at: added, unless the old list has it. -/
def placeNew (old list : List ε) (entry : ε × Nat) : List ε :=
  if (policy.keys old).contains (policy.key entry.1) then list
  else policy.place list entry.1 entry.2

/-- The elements that the removals leave. -/
def kept (old new : List ε) : List ε :=
  if regime.removes then old.filter fun element => (policy.keys new).contains (policy.key element)
  else old

/-- The elements that are kept, with the added ones in their places. -/
def placed (old new : List ε) : List ε :=
  new.zipIdx.foldl (policy.placeNew old) (policy.kept regime old new)

/-- Whether a key that is kept although the new list lacks it stands in front of a shared key, and
another key is to be added behind that one. -/
def Obstructed (old new : List ε) : Prop :=
  ∃ leftover shared added,
    [leftover, shared].Sublist (policy.keys (policy.kept regime old new)) ∧
      ¬ leftover ∈ policy.keys new ∧
      [shared, added].Sublist (policy.keys new) ∧ ¬ added ∈ policy.keys old

/-- What the changes make of an element; one that is not shared stays as it is. -/
def changed (old new : List ε) (element : ε) : ε :=
  if (policy.keys old).contains (policy.key element) then
    match policy.find? new (policy.key element) with
    | some after => regime.merge element after
    | none => element
  else element

/-- The list after a reordering was asked for if the elements are out of order. -/
def settled (old new list : List ε) : List ε :=
  if policy.outOfOrder old new && (policy.reorder new).isSome then
    arrange policy.key (policy.keys new) list
  else list

/-- The list that the remote holds in the end. -/
def result (old new : List ε) : List ε :=
  policy.settled old new ((policy.placed regime old new).map (policy.changed regime old new))

end

variable {policy : Policy ε α} {regime : Regime ε} {old new list : List ε} {actions : List α}

/-! ## When reconciling succeeds -/

theorem checkKeys_eq_ok_iff : policy.checkKeys list = .ok () ↔ (policy.keys list).Nodup := by
  rw [← firstRepeated_eq_none_iff, checkKeys]
  cases firstRepeated (policy.keys list) <;> simp

/-- Lists are reconciled if both have different keys and all changes can be made. -/
theorem reconcile_eq_ok_iff :
    policy.reconcile old (some new) = .ok actions ↔
      (policy.keys old).Nodup ∧ (policy.keys new).Nodup ∧
        ∃ changed, policy.changes old new = .ok changed ∧
          actions = policy.removals old new ++ policy.additions old new ++ changed ++
            policy.reordering old new := by
  rw [← checkKeys_eq_ok_iff, ← checkKeys_eq_ok_iff]
  simp only [reconcile, Refusal.bind_eq_ok_iff]
  constructor
  · rintro ⟨_, hOld, _, hNew, changed, hChanges, hActions⟩
    exact ⟨hOld, hNew, changed, hChanges, (Except.ok.inj hActions).symm⟩
  · rintro ⟨hOld, hNew, changed, hChanges, rfl⟩
    exact ⟨(), hOld, (), hNew, changed, hChanges, rfl⟩

/-- An absent new list asks for the same as an empty one. -/
theorem reconcile_none : policy.reconcile old none = policy.reconcile old (some []) := by
  have hEmpty : policy.checkKeys [] = .ok () := checkKeys_eq_ok_iff.mpr List.nodup_nil
  have hAll : policy.missingFrom [] old = old := List.filter_eq_self.mpr fun _ _ => rfl
  have hOrder : policy.reordering old [] = [] := by
    have hInOrder : policy.outOfOrder old [] = false := by
      unfold outOfOrder
      cases policy.placement <;> simp [keys, missingFrom]
    rw [reordering, hInOrder]
    rfl
  simp only [reconcile, hEmpty, hOrder, removals, hAll, changes, additions]
  cases old <;> simp [bind, Except.bind, pure, Except.pure]

/-- The new list counts as empty when it is absent. -/
theorem reconcile_getD {new : Option (List ε)} :
    policy.reconcile old new = policy.reconcile old (some (new.getD [])) := by
  cases new with
  | none => exact reconcile_none
  | some new => rfl

/-- The changes for a list are those for its first element, if that is shared, and for the rest. -/
theorem of_changes_cons {after : ε} {rest : List ε}
    (hOk : policy.changes old (after :: rest) = .ok actions) :
    ∃ first others, policy.changes old rest = .ok others ∧ actions = first ++ others ∧
      ((policy.find? old (policy.key after) = none ∧ first = []) ∨
        ∃ before, policy.find? old (policy.key after) = some before ∧
          policy.change before after = .ok first) := by
  unfold changes at hOk
  split at hOk
  · rename_i before hFind
    obtain ⟨first, hChange, hRest⟩ := Refusal.bind_eq_ok_iff.mp hOk
    obtain ⟨others, hOthers, hActions⟩ := Refusal.bind_eq_ok_iff.mp hRest
    exact ⟨first, others, hOthers, (Except.ok.inj hActions).symm, Or.inr ⟨before, hFind, hChange⟩⟩
  · rename_i hNone
    obtain ⟨first, hFirst, hRest⟩ := Refusal.bind_eq_ok_iff.mp hOk
    obtain ⟨others, hOthers, hActions⟩ := Refusal.bind_eq_ok_iff.mp hRest
    cases hFirst
    exact ⟨[], others, hOthers, (Except.ok.inj hActions).symm, Or.inl ⟨hNone, rfl⟩⟩

/-- Changes that can each be made can all be made. -/
theorem exists_changes_eq_ok
    (hTotal : ∀ before after, ∃ actions, policy.change before after = .ok actions) :
    ∃ actions, policy.changes old new = .ok actions := by
  induction new with
  | nil => exact ⟨[], rfl⟩
  | cons element rest ih =>
      obtain ⟨others, hOthers⟩ := ih
      unfold changes
      cases policy.find? old (policy.key element) with
      | none => exact ⟨[] ++ others, by simp only [hOthers]; rfl⟩
      | some before =>
          obtain ⟨first, hFirst⟩ := hTotal before element
          exact ⟨first ++ others, by simp only [hFirst, hOthers]; rfl⟩

/-! ## Looking elements up -/

theorem find?_eq_none_iff {key : String} :
    policy.find? list key = none ↔ ¬ key ∈ policy.keys list := by
  simp [find?, keys]

theorem key_of_find? {key : String} {element : ε} (hFind : policy.find? list key = some element) :
    policy.key element = key := by
  simpa using List.find?_some hFind

/-- In a list with different keys a key finds the element that has it. -/
theorem find?_eq_some_iff {key : String} {element : ε} (hNodup : (policy.keys list).Nodup) :
    policy.find? list key = some element ↔ element ∈ list ∧ policy.key element = key := by
  constructor
  · intro hFind
    exact ⟨List.mem_of_find?_eq_some hFind, key_of_find? hFind⟩
  · rintro ⟨hMem, rfl⟩
    cases hFind : policy.find? list (policy.key element) with
    | none => exact absurd (List.mem_map_of_mem hMem) (find?_eq_none_iff.mp hFind)
    | some found =>
        rw [List.inj_on_of_nodup_map hNodup (List.mem_of_find?_eq_some hFind) hMem
          (key_of_find? hFind)]

/-- An element that the old list lacks stays as it is. -/
theorem changed_of_not_mem {element : ε} (hOld : ¬ policy.key element ∈ policy.keys old) :
    policy.changed regime old new element = element := by
  rw [changed, if_neg (by simpa using hOld)]

/-- An element that the new list lacks stays as it is. -/
theorem changed_of_not_mem_new {element : ε} (hNew : ¬ policy.key element ∈ policy.keys new) :
    policy.changed regime old new element = element := by
  unfold changed
  rw [find?_eq_none_iff.mpr hNew]
  split <;> rfl

/-- A shared element is merged with the new one. -/
theorem changed_of_mem {element after : ε} (hOld : policy.key element ∈ policy.keys old)
    (hNodup : (policy.keys new).Nodup) (hNew : after ∈ new)
    (hKey : policy.key after = policy.key element) :
    policy.changed regime old new element = regime.merge element after := by
  rw [changed, if_pos (by simpa using hOld), (find?_eq_some_iff hNodup).mpr ⟨hNew, hKey⟩]

/-- Of several changes only the one for its key concerns an element. -/
theorem changed_cons_of_ne {element after : ε} {rest : List ε}
    (hOther : policy.key element ≠ policy.key after) :
    policy.changed regime old (after :: rest) element = policy.changed regime old rest element := by
  unfold changed find?
  rw [List.find?_cons_of_neg (by simpa using hOther.symm)]

/-! ## What is placed -/

theorem kept_sublist : (policy.kept regime old new).Sublist old := by
  unfold kept
  split
  · exact List.filter_sublist
  · exact .refl old

/-- All shared elements are kept. -/
theorem filter_kept (policy : Policy ε α) (regime : Regime ε) (old new : List ε) :
    (policy.kept regime old new).filter
        (fun element => (policy.keys new).contains (policy.key element)) =
      old.filter fun element => (policy.keys new).contains (policy.key element) := by
  unfold kept
  split
  · simp
  · rfl

theorem keys_append {more : List ε} :
    policy.keys (list ++ more) = policy.keys list ++ policy.keys more :=
  List.map_append

theorem keys_filter {test : String → Bool} :
    policy.keys (list.filter fun element => test (policy.key element)) =
      (policy.keys list).filter test := List.filter_map.symm

/-- The added elements are those that the old list lacks. -/
theorem mem_missingFrom {element : ε} :
    element ∈ policy.missingFrom old new ↔
      element ∈ new ∧ ¬ policy.key element ∈ policy.keys old := by
  simp [missingFrom]

theorem place_perm {element : ε} {position : Nat} :
    (policy.place list element position).Perm (element :: list) := by
  unfold place
  split
  · exact List.perm_append_singleton element list
  · exact List.perm_insertIdx element list (Nat.min_le_right ..)

theorem foldl_placeNew_perm (policy : Policy ε α) (entries : List (ε × Nat)) (old list : List ε) :
    (entries.foldl (policy.placeNew old) list).Perm
      (list ++ policy.missingFrom old (entries.map (·.1))) := by
  induction entries generalizing list with
  | nil => simp [missingFrom]
  | cons entry rest ih =>
      rw [List.foldl_cons, List.map_cons, missingFrom, placeNew]
      by_cases hOld : (policy.keys old).contains (policy.key entry.1) = true
      · rw [if_pos hOld, List.filter_cons_of_neg (by simpa using hOld)]
        exact ih list
      · rw [if_neg hOld, List.filter_cons_of_pos (by simpa using hOld)]
        exact (ih _).trans ((place_perm.append_right _).trans List.perm_middle.symm)

/-- Wherever they are placed, the kept elements and the added ones are there. -/
theorem placed_perm : (policy.placed regime old new).Perm
    (policy.kept regime old new ++ policy.missingFrom old new) := by
  have hPerm := foldl_placeNew_perm policy new.zipIdx old (policy.kept regime old new)
  rwa [List.zipIdx_map_fst] at hPerm

theorem foldl_placeNew_of_append (hPlacement : policy.placement = .append)
    (entries : List (ε × Nat)) (list : List ε) :
    entries.foldl (policy.placeNew old) list =
      list ++ policy.missingFrom old (entries.map (·.1)) := by
  induction entries generalizing list with
  | nil => simp [missingFrom]
  | cons entry rest ih =>
      rw [List.foldl_cons, List.map_cons, missingFrom, placeNew]
      by_cases hOld : (policy.keys old).contains (policy.key entry.1) = true
      · rw [if_pos hOld, List.filter_cons_of_neg (by simpa using hOld)]
        exact ih list
      · rw [if_neg hOld, List.filter_cons_of_pos (by simpa using hOld), ih, place, hPlacement,
          List.append_assoc]
        rfl

/-- Appended elements stand behind the kept ones. -/
theorem placed_of_append (hPlacement : policy.placement = .append) :
    policy.placed regime old new =
      policy.kept regime old new ++ policy.missingFrom old new := by
  rw [placed, foldl_placeNew_of_append hPlacement, List.zipIdx_map_fst]

/-- Elements that the old list has are not placed. -/
theorem foldl_placeNew_of_shared {entries : List ε} {position : Nat}
    (hShared : ∀ key ∈ policy.keys entries, key ∈ policy.keys old) :
    (entries.zipIdx position).foldl (policy.placeNew old) list = list := by
  induction entries generalizing position with
  | nil => rfl
  | cons element rest ih =>
      have hOld : (policy.keys old).contains (policy.key element) = true :=
        List.contains_iff_mem.mpr (hShared _ (List.mem_cons_self ..))
      rw [List.zipIdx_cons, List.foldl_cons, placeNew, if_pos hOld]
      exact ih fun key hKey => hShared key (List.mem_cons_of_mem _ hKey)

/-- Elements that are inserted at their positions come to stand in the new order, if what is behind
the elements done with has the shared keys of the rest in their order, and nothing is added behind a
shared key that has a leftover in front of it. -/
theorem keys_foldl_placeNew (hPlacement : policy.placement = .atPosition) {rest behind : List ε}
    (done : List ε) (hDone : ∀ key ∈ policy.keys done, key ∈ policy.keys new)
    (hRest : ∀ key ∈ policy.keys rest, key ∈ policy.keys new)
    (hBehind : (policy.keys behind).filter (policy.keys new).contains =
      (policy.keys rest).filter (policy.keys old).contains)
    (hClear : ∀ leftover shared added, [leftover, shared].Sublist (policy.keys behind) →
      ¬ leftover ∈ policy.keys new → [shared, added].Sublist (policy.keys rest) →
        added ∈ policy.keys old) :
    (policy.keys ((rest.zipIdx done.length).foldl (policy.placeNew old) (done ++ behind))).filter
        (policy.keys new).contains = policy.keys done ++ policy.keys rest := by
  have hAll (list : List ε) (hMem : ∀ key ∈ policy.keys list, key ∈ policy.keys new) :
      (policy.keys list).filter (policy.keys new).contains = policy.keys list :=
    List.filter_eq_self.mpr fun key hKey => List.contains_iff_mem.mpr (hMem key hKey)
  induction rest generalizing done behind with
  | nil =>
      show (policy.keys (done ++ behind)).filter _ = policy.keys done ++ []
      rw [keys_append, List.filter_append, hAll done hDone, hBehind]
      rfl
  | cons element rest ih =>
      have hCons : policy.keys (element :: rest) = policy.key element :: policy.keys rest := rfl
      rw [hCons] at hRest
      have hMore (next : ε) (hNext : policy.key next = policy.key element) :
          ∀ key ∈ policy.keys (done ++ [next]), key ∈ policy.keys new := by
        intro key hKey
        rw [keys_append] at hKey
        rcases List.mem_append.mp hKey with hKey | hKey
        · exact hDone key hKey
        · rw [List.mem_singleton.mp hKey, hNext]
          exact hRest _ (List.mem_cons_self ..)
      have hLater : ∀ key ∈ policy.keys rest, key ∈ policy.keys new := fun key hKey =>
        hRest key (List.mem_cons_of_mem _ hKey)
      by_cases hOld : (policy.keys old).contains (policy.key element) = true
      · rw [hCons, List.filter_cons_of_pos hOld] at hBehind
        obtain ⟨front, back, hSplit, hFront, -, hBack⟩ := List.filter_eq_cons_iff.mp hBehind
        cases front with
        | nil =>
            -- The shared element is the next one already, so it only passes over to those done with.
            obtain ⟨found, behind, rfl, hFound, rfl⟩ := List.map_eq_cons_iff.mp hSplit
            have hNext := ih (done ++ [found]) (hMore found hFound) hLater hBack
              fun leftover shared added hFront hLeft hBehind =>
                hClear leftover shared added (hFront.cons _) hLeft (hBehind.cons _)
            rw [List.length_append, List.length_singleton, List.append_assoc,
              List.singleton_append] at hNext
            rw [List.zipIdx_cons, List.foldl_cons, placeNew, if_pos hOld, hNext, hCons, ← hFound,
              keys_append, List.append_assoc]
            rfl
        | cons leftover front =>
            -- A leftover stands in front of it, so nothing is added any more.
            have hLeft : ¬ leftover ∈ policy.keys new := fun hMem =>
              hFront leftover (List.mem_cons_self ..) (List.contains_iff_mem.mpr hMem)
            have hShared : ∀ key ∈ policy.keys (element :: rest), key ∈ policy.keys old := by
              intro key hKey
              rcases List.mem_cons.mp hKey with rfl | hKey
              · exact List.contains_iff_mem.mp hOld
              · refine hClear leftover (policy.key element) key ?_ hLeft ?_
                · rw [hSplit, List.cons_append]
                  exact .cons_cons _ (List.singleton_sublist.mpr
                    (List.mem_append_right _ (List.mem_cons_self ..)))
                · exact .cons_cons _ (List.singleton_sublist.mpr hKey)
            have hOnly : (policy.keys rest).filter (policy.keys old).contains = policy.keys rest :=
              List.filter_eq_self.mpr fun key hKey =>
                List.contains_iff_mem.mpr (hShared key (List.mem_cons_of_mem _ hKey))
            rw [foldl_placeNew_of_shared hShared, keys_append, List.filter_append, hAll done hDone,
              hBehind, hOnly, hCons]
      · rw [hCons, List.filter_cons_of_neg hOld] at hBehind
        have hNext := ih (done ++ [element]) (hMore element rfl) hLater hBehind
          fun leftover shared added hFront hLeft hBehind =>
            hClear leftover shared added hFront hLeft (hBehind.cons _)
        have hPlaced : policy.place (done ++ behind) element done.length =
            done ++ [element] ++ behind := by
          have hInside : done.length ≤ (done ++ behind).length := by
            rw [List.length_append]
            exact Nat.le_add_right ..
          rw [place, hPlacement]
          simp only [Nat.min_eq_left hInside, insertIdx_append]
          rw [List.append_assoc, List.singleton_append]
        rw [List.length_append, List.length_singleton] at hNext
        rw [List.zipIdx_cons, List.foldl_cons, placeNew, if_neg hOld, hPlaced, hNext, hCons,
          keys_append, List.append_assoc]
        rfl

/-- A remote that removes what it is asked to leaves nothing in the way of an addition. -/
theorem not_obstructed_of_removes (hRemoves : regime.removes = true) :
    ¬ policy.Obstructed regime old new := by
  rintro ⟨leftover, shared, added, hKept, hLeft, -, -⟩
  rw [kept, if_pos hRemoves, keys_filter] at hKept
  have hMem := (List.mem_filter.mp (hKept.subset (List.mem_cons_self ..))).2
  exact hLeft (List.contains_iff_mem.mp hMem)

/-- Without a reordering the new keys stand in the new order already, unless a leftover is in the way
of an addition. -/
theorem keys_placed (hInOrder : policy.outOfOrder old new = false)
    (hClear : policy.placement = .append ∨ ¬ policy.Obstructed regime old new) :
    (policy.keys (policy.placed regime old new)).filter (policy.keys new).contains =
      policy.keys new := by
  have hKept : (policy.keys (policy.kept regime old new)).filter (policy.keys new).contains =
      (policy.keys old).filter (policy.keys new).contains := by
    rw [← keys_filter, filter_kept, keys_filter]
  unfold outOfOrder at hInOrder
  cases hPlacement : policy.placement with
  | append =>
      have hAdded : ∀ key ∈ policy.keys (policy.missingFrom old new),
          (policy.keys new).contains key = true := by
        intro key hKey
        obtain ⟨element, hElement, rfl⟩ := List.mem_map.mp hKey
        exact List.contains_iff_mem.mpr (List.mem_map_of_mem (mem_missingFrom.mp hElement).1)
      simp only [hPlacement, bne_eq_false_iff_eq] at hInOrder
      rw [placed_of_append hPlacement, keys_append, List.filter_append, hKept,
        List.filter_eq_self.mpr hAdded, hInOrder]
  | atPosition =>
      simp only [hPlacement, bne_eq_false_iff_eq] at hInOrder
      have hFree : ¬ policy.Obstructed regime old new := hClear.resolve_left (by simp [hPlacement])
      refine keys_foldl_placeNew hPlacement [] (by simp [keys]) (fun _ hKey => hKey)
        (hKept.trans hInOrder) fun leftover shared added hFront hLeft hBehind => ?_
      by_contra hNew
      exact hFree ⟨leftover, shared, added, hFront, hLeft, hBehind, hNew⟩

/-- The new keys that are there are all new keys. -/
theorem keys_placed_perm (hOld : (policy.keys old).Nodup) (hNew : (policy.keys new).Nodup) :
    ((policy.keys (policy.placed regime old new)).filter (policy.keys new).contains).Perm
      (policy.keys new) := by
  refine ((placed_perm.map policy.key).filter _).trans ?_
  rw [List.map_append, List.filter_append]
  show (List.filter _ (policy.keys _) ++ List.filter _ (policy.keys _)).Perm _
  rw [← keys_filter, filter_kept, keys_filter]
  refine (List.perm_ext_iff_of_nodup ?_ hNew).mpr fun key => ?_
  · refine List.nodup_append.mpr ⟨hOld.filter _, ?_, ?_⟩
    · exact (hNew.sublist (List.filter_sublist.map policy.key)).filter _
    · rintro key hShared other hAdded rfl
      obtain ⟨element, hElement, hKey⟩ := List.mem_map.mp (List.mem_filter.mp hAdded).1
      exact (mem_missingFrom.mp hElement).2 (hKey ▸ (List.mem_filter.mp hShared).1)
  · simp only [List.mem_append, List.mem_filter, List.contains_iff_mem]
    constructor
    · rintro (hShared | hAdded)
      · exact hShared.2
      · exact hAdded.2
    · intro hKey
      by_cases hShared : key ∈ policy.keys old
      · exact Or.inl ⟨hShared, hKey⟩
      · obtain ⟨element, hElement, rfl⟩ := List.mem_map.mp hKey
        exact Or.inr ⟨List.mem_map_of_mem (mem_missingFrom.mpr ⟨hElement, hShared⟩), hKey⟩

/-- No key is placed twice. -/
theorem nodup_keys_placed (hOld : (policy.keys old).Nodup) (hNew : (policy.keys new).Nodup) :
    (policy.keys (policy.placed regime old new)).Nodup := by
  refine (placed_perm.map policy.key).nodup_iff.mpr ?_
  rw [List.map_append]
  refine List.nodup_append.mpr ⟨hOld.sublist (kept_sublist.map _),
    hNew.sublist (List.filter_sublist.map _), ?_⟩
  rintro key hKept other hAdded rfl
  obtain ⟨element, hElement, hKey⟩ := List.mem_map.mp hAdded
  exact (mem_missingFrom.mp hElement).2 (hKey ▸ (kept_sublist.map policy.key).subset hKept)

/-! ## The result -/

/-- A merged element has the key that both have. -/
def KeepsKeys (policy : Policy ε α) (regime : Regime ε) (old new : List ε) : Prop :=
  ∀ before ∈ old, ∀ after ∈ new, policy.key before = policy.key after →
    policy.key (regime.merge before after) = policy.key after

/-- An element that the old list has is there because it was kept. -/
theorem mem_kept_of_mem_placed {element : ε} (hMem : element ∈ policy.placed regime old new)
    (hOld : policy.key element ∈ policy.keys old) : element ∈ policy.kept regime old new :=
  (List.mem_append.mp (placed_perm.mem_iff.mp hMem)).resolve_right fun hAdded =>
    (mem_missingFrom.mp hAdded).2 hOld

/-- The changes keep the keys. -/
theorem keys_map_changed (hNew : (policy.keys new).Nodup)
    (hKeeps : policy.KeepsKeys regime old new) :
    policy.keys ((policy.placed regime old new).map (policy.changed regime old new)) =
      policy.keys (policy.placed regime old new) := by
  rw [keys, List.map_map]
  refine List.map_congr_left fun element hElement => ?_
  by_cases hOld : policy.key element ∈ policy.keys old
  · by_cases hShared : policy.key element ∈ policy.keys new
    · obtain ⟨after, hAfter, hKey⟩ := List.mem_map.mp hShared
      rw [Function.comp_apply, changed_of_mem hOld hNew hAfter hKey,
        hKeeps element (kept_sublist.subset (mem_kept_of_mem_placed hElement hOld)) after hAfter
          hKey.symm, hKey]
    · rw [Function.comp_apply, changed_of_not_mem_new hShared]
  · rw [Function.comp_apply, changed_of_not_mem hOld]

/-- A reordering loses nothing and adds nothing. -/
theorem settled_perm : (policy.settled old new list).Perm list := by
  unfold settled
  split
  · exact arrangeBy_perm
  · exact .refl list

/-- No change concerns an added element. -/
theorem map_changed_missingFrom :
    (policy.missingFrom old new).map (policy.changed regime old new) =
      policy.missingFrom old new := by
  refine (List.map_congr_left fun element hElement => ?_).trans (List.map_id _)
  exact changed_of_not_mem (mem_missingFrom.mp hElement).2

/-- What the remote holds in the end: the kept elements with their changes, and the added ones. -/
theorem result_perm : (policy.result regime old new).Perm
    ((policy.kept regime old new).map (policy.changed regime old new) ++
      policy.missingFrom old new) := by
  refine settled_perm.trans ((placed_perm.map _).trans ?_)
  rw [List.map_append, map_changed_missingFrom]

/-- Without a reordering the appended elements stay behind the kept ones. -/
theorem result_of_unordered (hPlacement : policy.placement = .append)
    (hOrder : policy.reorder new = none) :
    policy.result regime old new =
      (policy.kept regime old new).map (policy.changed regime old new) ++
        policy.missingFrom old new := by
  rw [result, settled, hOrder, Option.isSome_none, Bool.and_false, if_neg Bool.false_ne_true,
    placed_of_append hPlacement, List.map_append, map_changed_missingFrom]

/-- A reordering brings the new keys into the new order. -/
theorem keys_result_of_outOfOrder (hOld : (policy.keys old).Nodup) (hNew : (policy.keys new).Nodup)
    (hKeeps : policy.KeepsKeys regime old new) (hOut : policy.outOfOrder old new = true)
    (hReorders : (policy.reorder new).isSome = true) :
    (policy.keys (policy.result regime old new)).filter (policy.keys new).contains =
      policy.keys new := by
  rw [result, settled, hReorders, hOut, Bool.and_true, if_pos rfl]
  refine keys_arrange hNew ?_
  have hPerm := @keys_placed_perm ε α policy regime old new hOld hNew
  rw [← keys_map_changed hNew hKeeps] at hPerm
  exact hPerm

/-- Without a reordering the keys stay where they were placed. -/
theorem keys_result_of_inOrder (hNew : (policy.keys new).Nodup)
    (hKeeps : policy.KeepsKeys regime old new) (hInOrder : policy.outOfOrder old new = false) :
    policy.keys (policy.result regime old new) = policy.keys (policy.placed regime old new) := by
  rw [result, settled, hInOrder, Bool.false_and, if_neg Bool.false_ne_true,
    keys_map_changed hNew hKeeps]

/-- In the end the new keys stand in the new order. -/
theorem keys_result (hOld : (policy.keys old).Nodup) (hNew : (policy.keys new).Nodup)
    (hKeeps : policy.KeepsKeys regime old new)
    (hClear : policy.placement = .append ∨ ¬ policy.Obstructed regime old new)
    (hReorders : (policy.reorder new).isSome = true) :
    (policy.keys (policy.result regime old new)).filter (policy.keys new).contains =
      policy.keys new := by
  cases hOrder : policy.outOfOrder old new with
  | false =>
      rw [keys_result_of_inOrder hNew hKeeps hOrder]
      exact keys_placed hOrder hClear
  | true => exact keys_result_of_outOfOrder hOld hNew hKeeps hOrder hReorders

/-- In the end no key is there twice. -/
theorem nodup_keys_result (hOld : (policy.keys old).Nodup) (hNew : (policy.keys new).Nodup)
    (hKeeps : policy.KeepsKeys regime old new) :
    (policy.keys (policy.result regime old new)).Nodup := by
  refine (settled_perm.map policy.key).nodup_iff.mpr ?_
  show (policy.keys _).Nodup
  rw [keys_map_changed hNew hKeeps]
  exact nodup_keys_placed hOld hNew

/-- In the end all new keys are there. -/
theorem mem_keys_result (hOld : (policy.keys old).Nodup) (hNew : (policy.keys new).Nodup)
    (hKeeps : policy.KeepsKeys regime old new) {key : String} (hKey : key ∈ policy.keys new) :
    key ∈ policy.keys (policy.result regime old new) := by
  have hPlaced : key ∈ policy.keys (policy.placed regime old new) :=
    (List.mem_filter.mp ((keys_placed_perm hOld hNew).mem_iff.mpr hKey)).1
  rw [← keys_map_changed hNew hKeeps] at hPlaced
  exact (settled_perm.map policy.key).mem_iff.mpr hPlaced

/-- After a remote removed what it was asked to, an element is a new one that the old list lacks, or
an old one merged with the new one of its key. -/
theorem of_mem_result (hNew : (policy.keys new).Nodup) (hKeeps : policy.KeepsKeys regime old new)
    (hRemoves : regime.removes = true) {element : ε}
    (hMem : element ∈ policy.result regime old new) :
    ∃ after ∈ new, policy.key element = policy.key after ∧
      ((element = after ∧ ¬ policy.key after ∈ policy.keys old) ∨
        ∃ before ∈ old, policy.key before = policy.key after ∧
          element = regime.merge before after) := by
  rcases List.mem_append.mp (result_perm.mem_iff.mp hMem) with hKept | hAdded
  · obtain ⟨before, hBefore, rfl⟩ := List.mem_map.mp hKept
    rw [kept, if_pos hRemoves] at hBefore
    obtain ⟨hOldElement, hShared⟩ := List.mem_filter.mp hBefore
    obtain ⟨after, hAfter, hKey⟩ := List.mem_map.mp (List.contains_iff_mem.mp hShared)
    rw [changed_of_mem (List.mem_map_of_mem hOldElement) hNew hAfter hKey]
    exact ⟨after, hAfter, hKeeps before hOldElement after hAfter hKey.symm,
      Or.inr ⟨before, hOldElement, hKey.symm, rfl⟩⟩
  · obtain ⟨hAfter, hFresh⟩ := mem_missingFrom.mp hAdded
    exact ⟨element, hAfter, rfl, Or.inl ⟨rfl, hFresh⟩⟩

/-- A remote that removes what it is asked to holds no other keys in the end than the new ones. -/
theorem mem_keys_of_mem_keys_result (hNew : (policy.keys new).Nodup)
    (hKeeps : policy.KeepsKeys regime old new) (hRemoves : regime.removes = true) {key : String}
    (hKey : key ∈ policy.keys (policy.result regime old new)) : key ∈ policy.keys new := by
  obtain ⟨element, hElement, rfl⟩ := List.mem_map.mp hKey
  obtain ⟨after, hAfter, hSame, -⟩ := of_mem_result hNew hKeeps hRemoves hElement
  rw [hSame]
  exact List.mem_map_of_mem hAfter

/-- Such a remote holds each of the new keys once. -/
theorem keys_result_perm (hOld : (policy.keys old).Nodup) (hNew : (policy.keys new).Nodup)
    (hKeeps : policy.KeepsKeys regime old new) (hRemoves : regime.removes = true) :
    (policy.keys (policy.result regime old new)).Perm (policy.keys new) := by
  refine (List.perm_ext_iff_of_nodup (nodup_keys_result hOld hNew hKeeps) hNew).mpr fun key => ?_
  exact ⟨mem_keys_of_mem_keys_result hNew hKeeps hRemoves, mem_keys_result hOld hNew hKeeps⟩

/-- With a reordering it holds them in the new order. -/
theorem keys_result_of_removes (hOld : (policy.keys old).Nodup) (hNew : (policy.keys new).Nodup)
    (hKeeps : policy.KeepsKeys regime old new) (hRemoves : regime.removes = true)
    (hReorders : (policy.reorder new).isSome = true) :
    policy.keys (policy.result regime old new) = policy.keys new := by
  have hAll := keys_result hOld hNew hKeeps (Or.inr (not_obstructed_of_removes hRemoves)) hReorders
  rw [List.filter_eq_self.mpr] at hAll
  · exact hAll
  · intro key hKey
    exact List.contains_iff_mem.mpr (mem_keys_of_mem_keys_result hNew hKeeps hRemoves hKey)

/-- A remote that does everything ends up with the new list. -/
theorem result_exact (hOld : (policy.keys old).Nodup) (hNew : (policy.keys new).Nodup)
    (hReorders : (policy.reorder new).isSome = true) : policy.result .exact old new = new := by
  have hKeeps : policy.KeepsKeys .exact old new := fun _ _ _ _ _ => rfl
  refine eq_of_keys (fun element hElement => ?_)
    (keys_result_of_removes hOld hNew hKeeps rfl hReorders) hNew
  obtain ⟨after, hAfter, -, ⟨rfl, -⟩ | ⟨before, -, -, rfl⟩⟩ := of_mem_result hNew hKeeps rfl hElement
  · exact hAfter
  · exact hAfter

/-! ## A remote that only adds and reorders -/

theorem map_changed_additive : list.map (policy.changed .additive old new) = list := by
  refine (List.map_congr_left fun element _ => ?_).trans (List.map_id list)
  unfold changed
  split
  · split <;> rfl
  · rfl

/-- The elements that the new list lacks keep their order. -/
theorem filter_result_additive (hPlacement : policy.placement = .append) :
    (policy.result .additive old new).filter
        (fun element => !(policy.keys new).contains (policy.key element)) =
      old.filter fun element => !(policy.keys new).contains (policy.key element) := by
  have hAdded : (policy.missingFrom old new).filter
      (fun element => !(policy.keys new).contains (policy.key element)) = [] := by
    refine List.filter_eq_nil_iff.mpr fun element hElement => ?_
    have hKey : policy.key element ∈ policy.keys new :=
      List.mem_map_of_mem (mem_missingFrom.mp hElement).1
    simpa using hKey
  have hPlaced : (policy.placed .additive old new).filter
      (fun element => !(policy.keys new).contains (policy.key element)) =
        old.filter fun element => !(policy.keys new).contains (policy.key element) := by
    rw [placed_of_append hPlacement, List.filter_append, hAdded, List.append_nil]
    rfl
  rw [result, map_changed_additive, settled]
  split
  · rw [← hPlaced]
    exact filter_arrange
  · exact hPlaced

/-- What has no old key was added. -/
theorem mem_missingFrom_of_mem_result {element : ε}
    (hMem : element ∈ policy.result .additive old new)
    (hFresh : ¬ policy.key element ∈ policy.keys old) : element ∈ policy.missingFrom old new := by
  refine (List.mem_append.mp (result_perm.mem_iff.mp hMem)).resolve_left fun hKept => hFresh ?_
  rw [map_changed_additive] at hKept
  exact List.mem_map_of_mem hKept

/-- What has no old key was added in the new order. -/
theorem missingFrom_result_additive (hOld : (policy.keys old).Nodup) (hNew : (policy.keys new).Nodup)
    (hPlacement : policy.placement = .append) (hReorders : (policy.reorder new).isSome = true) :
    policy.missingFrom old (policy.result .additive old new) = policy.missingFrom old new := by
  refine eq_of_keys (fun element hElement => ?_) ?_ (hNew.sublist (List.filter_sublist.map _))
  · obtain ⟨hMem, hFresh⟩ := mem_missingFrom.mp hElement
    exact mem_missingFrom_of_mem_result hMem hFresh
  · have hOnlyNew : (policy.keys (policy.result .additive old new)).filter
        (fun key => !(policy.keys old).contains key) =
          ((policy.keys (policy.result .additive old new)).filter (policy.keys new).contains).filter
            fun key => !(policy.keys old).contains key := by
      rw [List.filter_filter]
      refine List.filter_congr fun key hKey => ?_
      obtain ⟨element, hElement, rfl⟩ := List.mem_map.mp hKey
      by_cases hFresh : policy.key element ∈ policy.keys old
      · simp [hFresh]
      · have hAdded := mem_missingFrom.mp (mem_missingFrom_of_mem_result hElement hFresh)
        have hShared : policy.key element ∈ policy.keys new := List.mem_map_of_mem hAdded.1
        simp [hShared]
    rw [keys_result hOld hNew (fun _ _ _ _ hKey => hKey) (Or.inl hPlacement) hReorders] at hOnlyNew
    exact keys_filter.trans (hOnlyNew.trans keys_filter.symm)

/-- A list that is neither changed nor shortened grows. -/
theorem result_additive (hOld : (policy.keys old).Nodup) (hNew : (policy.keys new).Nodup)
    (hPlacement : policy.placement = .append) (hReorders : (policy.reorder new).isSome = true) :
    Grown policy.key old new (policy.result .additive old new) where
  stays element hElement := by
    have hKept : (policy.kept .additive old new).map (policy.changed .additive old new) = old :=
      map_changed_additive
    refine result_perm.mem_iff.mpr (List.mem_append_left _ ?_)
    rwa [hKept]
  added := missingFrom_result_additive hOld hNew hPlacement hReorders
  order := keys_result hOld hNew (fun _ _ _ _ hKey => hKey) (Or.inl hPlacement) hReorders
  rest := filter_result_additive hPlacement
  nodup := nodup_keys_result hOld hNew fun _ _ _ _ hKey => hKey

/-! ## Nothing to do -/

/-- At most a reordering is asked for if no element has to be removed and every new element is there
and unchanged. -/
theorem reconcile_of_held (hList : (policy.keys list).Nodup) (hNew : (policy.keys new).Nodup)
    (hRemovals : policy.removals list new = [])
    (hHeld : ∀ after ∈ new, ∃ before ∈ list, policy.key before = policy.key after ∧
      policy.change before after = .ok []) :
    policy.reconcile list (some new) = .ok (policy.reordering list new) := by
  have hAdditions : policy.additions list new = [] := by
    refine List.filterMap_eq_nil_iff.mpr fun entry hEntry => if_pos ?_
    have hMem : entry.1 ∈ new := by
      rw [← List.zipIdx_map_fst 0 new]
      exact List.mem_map_of_mem hEntry
    obtain ⟨before, hBefore, hKey, -⟩ := hHeld entry.1 hMem
    rw [List.contains_iff_mem, ← hKey]
    exact List.mem_map_of_mem hBefore
  have hChanges : policy.changes list new = .ok [] := by
    clear hNew hRemovals hAdditions
    induction new with
    | nil => rfl
    | cons after rest ih =>
        obtain ⟨before, hBefore, hKey, hChange⟩ := hHeld after (List.mem_cons_self ..)
        have hRest := ih fun other hOther => hHeld other (List.mem_cons_of_mem _ hOther)
        unfold changes
        simp only [(find?_eq_some_iff hList).mpr ⟨hBefore, hKey⟩, hChange, hRest]
        rfl
  refine reconcile_eq_ok_iff.mpr ⟨hList, hNew, [], hChanges, ?_⟩
  rw [hRemovals, hAdditions]
  rfl

/-- Nothing is asked for if moreover no reordering is needed. -/
theorem reconcile_eq_nil (hList : (policy.keys list).Nodup) (hNew : (policy.keys new).Nodup)
    (hRemovals : policy.removals list new = [])
    (hHeld : ∀ after ∈ new, ∃ before ∈ list, policy.key before = policy.key after ∧
      policy.change before after = .ok [])
    (hOrder : policy.reordering list new = []) : policy.reconcile list (some new) = .ok [] := by
  rw [reconcile_of_held hList hNew hRemovals hHeld, hOrder]

/-- Where no new key is missing, both placements compare the shared keys alone. -/
theorem outOfOrder_of_held (hHeld : ∀ key ∈ policy.keys new, key ∈ policy.keys list) :
    policy.outOfOrder list new =
      ((policy.keys list).filter (policy.keys new).contains != policy.keys new) := by
  unfold outOfOrder
  cases policy.placement with
  | append =>
      have hNone : policy.missingFrom list new = [] := by
        refine List.filter_eq_nil_iff.mpr fun element hElement => ?_
        simpa using hHeld _ (List.mem_map_of_mem hElement)
      simp [hNone, keys]
  | atPosition =>
      have hAll : (policy.keys new).filter (policy.keys list).contains = policy.keys new :=
        List.filter_eq_self.mpr fun key hKey => List.contains_iff_mem.mpr (hHeld key hKey)
      simp [hAll]

/-- No reordering is asked for if the new keys are there in the new order. -/
theorem reordering_eq_nil
    (hKeys : (policy.keys list).filter (policy.keys new).contains = policy.keys new) :
    policy.reordering list new = [] := by
  have hHeld : ∀ key ∈ policy.keys new, key ∈ policy.keys list := by
    intro key hKey
    rw [← hKeys] at hKey
    exact (List.mem_filter.mp hKey).1
  rw [reordering, outOfOrder_of_held hHeld, hKeys, bne_self_eq_false, if_neg Bool.false_ne_true]

/-- No removal is asked for if the new list has all keys. -/
theorem removals_eq_nil (hKeys : ∀ element ∈ list, policy.key element ∈ policy.keys new) :
    policy.removals list new = [] := by
  have hNone : policy.missingFrom new list = [] := by
    refine List.filter_eq_nil_iff.mpr fun element hElement => ?_
    simpa using hKeys element hElement
  rw [removals, hNone]

/-- A policy that removes what it is asked to has nothing to remove only if the new list has all
keys. -/
theorem removals_eq_nil_iff (hRemove : ∀ removed, removed ≠ [] → policy.remove removed ≠ []) :
    policy.removals list new = [] ↔ ∀ element ∈ list, policy.key element ∈ policy.keys new := by
  refine ⟨fun hNone element hElement => ?_, removals_eq_nil⟩
  by_contra hNot
  have hStill : element ∈ policy.missingFrom new list := mem_missingFrom.mpr ⟨hElement, hNot⟩
  unfold removals at hNone
  split at hNone
  · rename_i hNothing
    rw [hNothing] at hStill
    exact List.not_mem_nil hStill
  · rename_i hSome
    exact hRemove _ hSome hNone

/-- Nothing is asked for if each new element is there in its place and unchanged. -/
theorem reconcile_of_forall₂ (hNew : (policy.keys new).Nodup)
    (hLists : List.Forall₂ (fun after before => policy.key after = policy.key before ∧
      policy.change before after = .ok []) new list) :
    policy.reconcile list (some new) = .ok [] := by
  have hKeys : policy.keys new = policy.keys list :=
    keys_of_forall₂ hLists fun _ _ hRelated => hRelated.1
  refine reconcile_eq_nil (hKeys ▸ hNew) hNew (removals_eq_nil fun element hElement => ?_)
    (fun after hAfter => ?_) (reordering_eq_nil ?_)
  · rw [hKeys]
    exact List.mem_map_of_mem hElement
  · obtain ⟨before, hBefore, hKey, hChange⟩ := exists_of_forall₂ hLists after hAfter
    exact ⟨before, hBefore, hKey.symm, hChange⟩
  · rw [← hKeys]
    exact List.filter_eq_self.mpr fun key hKey => List.contains_iff_mem.mpr hKey

/-- A list with different keys asks for nothing to become itself. -/
theorem reconcile_self (hList : (policy.keys list).Nodup)
    (hSame : ∀ element ∈ list, policy.change element element = .ok []) :
    policy.reconcile list (some list) = .ok [] :=
  reconcile_of_forall₂ hList (List.forall₂_same.mpr fun element hElement =>
    ⟨rfl, hSame element hElement⟩)

end Policy

end CatalogSync.KeyedList
