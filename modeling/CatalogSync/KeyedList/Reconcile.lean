import CatalogSync.KeyedList.Policy

/-!
# Reconciling keyed lists

`reconcile` turns an old list into a new one. Elements are matched by key and never by position. The
actions come in four phases:

1. removals of the elements whose keys only the old list has,
2. one addition for each element whose key only the new list has, in the order of the new list,
3. the changes of the elements that both lists have, in the order of the new list,
4. one reordering to the complete new list, if the first three phases leave another order.

An absent new list asks for the removal of everything. A list that repeats a key is refused before
any action is built, the old list first.

## Main results

* `firstRepeated_eq_none_iff`: no key is reported exactly when the keys are distinct.
-/

namespace CatalogSync.KeyedList

/-- The first key that repeats an earlier one, where `seen` holds the keys before the list. -/
def firstRepeatedAfter (seen : List String) : List String → Option String
  | [] => none
  | key :: keys => if key ∈ seen then some key else firstRepeatedAfter (key :: seen) keys

/-- The first key of a list that repeats an earlier one. -/
def firstRepeated (keys : List String) : Option String := firstRepeatedAfter [] keys

theorem firstRepeatedAfter_eq_none_iff {seen keys : List String} :
    firstRepeatedAfter seen keys = none ↔ keys.Nodup ∧ ∀ key ∈ keys, key ∉ seen := by
  induction keys generalizing seen with
  | nil => simp [firstRepeatedAfter]
  | cons key keys ih =>
      unfold firstRepeatedAfter
      split
      · rename_i hSeen
        simp [hSeen]
      · rename_i hFresh
        rw [ih, List.nodup_cons]
        constructor
        · rintro ⟨hNodup, hApart⟩
          have hKey : key ∉ keys := fun hMem => hApart key hMem (List.mem_cons_self ..)
          refine ⟨⟨hKey, hNodup⟩, ?_⟩
          intro other hOther
          rcases List.mem_cons.mp hOther with rfl | hTail
          · exact hFresh
          · exact fun hSeen => hApart other hTail (List.mem_cons_of_mem _ hSeen)
        · rintro ⟨⟨hKey, hNodup⟩, hApart⟩
          refine ⟨hNodup, ?_⟩
          intro other hOther hMem
          rcases List.mem_cons.mp hMem with rfl | hSeen
          · exact hKey hOther
          · exact hApart other (List.mem_cons_of_mem _ hOther) hSeen

/-- No key is reported exactly when the keys are distinct. -/
theorem firstRepeated_eq_none_iff {keys : List String} :
    firstRepeated keys = none ↔ keys.Nodup := by
  simp [firstRepeated, firstRepeatedAfter_eq_none_iff]

namespace Policy

variable {ε α : Type} (policy : Policy ε α)

/-- The keys of a list in its order. -/
def keys (list : List ε) : List String := list.map policy.key

/-- The first element of a list with a key. -/
def find? (list : List ε) (key : String) : Option ε :=
  list.find? fun element => policy.key element == key

/-- Refuses a list that repeats a key. -/
def checkKeys (list : List ε) : Except Refusal Unit :=
  match firstRepeated (policy.keys list) with
  | some key => .error (.duplicateKey policy.collection key)
  | none => .ok ()

/-- The elements of a list whose keys another list lacks, in their order. -/
def missingFrom (other list : List ε) : List ε :=
  list.filter fun element => !(policy.keys other).contains (policy.key element)

/-- First phase: the removal of the elements that the new list lacks. -/
def removals (old new : List ε) : List α :=
  match policy.missingFrom new old with
  | [] => []
  | removed => policy.remove removed

/-- Second phase: the addition of the elements that the old list lacks. -/
def additions (old new : List ε) : List α :=
  new.zipIdx.filterMap fun (element, position) =>
    if (policy.keys old).contains (policy.key element) then none
    else some (policy.add element position)

/-- Third phase: the changes of the shared elements; the first refusal ends it. -/
def changes (old : List ε) : List ε → Except Refusal (List α)
  | [] => .ok []
  | element :: rest => do
      let first ←
        match policy.find? old (policy.key element) with
        | some before => policy.change before element
        | none => .ok []
      let others ← changes old rest
      return first ++ others

/--
Whether the remote holds another order than the new list after removals and additions.

The shared keys keep their old order. An appended element comes after all of them; an element
inserted at its position is already in place, so only the shared keys can be out of order.
-/
def outOfOrder (old new : List ε) : Bool :=
  let retained := (policy.keys old).filter (policy.keys new).contains
  match policy.placement with
  | .append => retained ++ policy.keys (policy.missingFrom old new) != policy.keys new
  | .atPosition => retained != (policy.keys new).filter (policy.keys old).contains

/-- Fourth phase: the reordering to the complete new list. -/
def reordering (old new : List ε) : List α :=
  if policy.outOfOrder old new then (policy.reorder new).toList else []

/-- The actions that turn the old list into the new one. -/
def reconcile (old : List ε) (new : Option (List ε)) : Except Refusal (List α) := do
  policy.checkKeys old
  match new with
  | none =>
      match old with
      | [] => return []
      | old => return policy.remove old
  | some new =>
      policy.checkKeys new
      let changed ← policy.changes old new
      return policy.removals old new ++ policy.additions old new ++ changed
        ++ policy.reordering old new

end Policy

end CatalogSync.KeyedList
