import CatalogSync.KeyedList.Arrange
import CatalogSync.KeyedList.Reconcile

/-!
# Replaying edits on a list

A plain model of a remote list: entries of a key and a value, the edits that a remote performs on
them, and policies that build such edits. Replaying the edits of a reconciliation shows which list
the remote ends up with.
-/

namespace CatalogSync.KeyedList

/-- An element of a plain list. -/
structure Entry where
  /-- The key of the entry. -/
  key : String
  /-- What a change compares. -/
  value : UInt8
deriving DecidableEq, Repr

/-- An edit of a plain list. -/
inductive Edit where
  /-- Removes the entries with these keys. -/
  | remove (keys : List String)
  /-- Adds an entry; the position counts for a remote that places entries at positions. -/
  | add (entry : Entry) (position : Nat)
  /-- Replaces the value of the first entry with a key. -/
  | setValue (key : String) (value : UInt8)
  /-- Brings the list into the order of these keys. -/
  | reorder (keys : List String)
deriving DecidableEq, Repr

/-- The last place of a key in a list of keys, or the length of the list. -/
def lastRank (keys : List String) (key : String) : Nat :=
  match keys.reverse.idxOf? key with
  | some fromEnd => keys.length - 1 - fromEnd
  | none => keys.length

namespace Edit

/--
The list after one edit. A reordering ranks an entry by the last place of its key among the given
keys; entries whose keys are not given keep their order at the end.
-/
def perform (placement : Placement) (list : List Entry) : Edit → List Entry
  | .remove keys => list.filter fun entry => !keys.contains entry.key
  | .add entry position =>
      match placement with
      | .append => list ++ [entry]
      | .atPosition => list.insertIdx (min position list.length) entry
  | .setValue key value =>
      modifyFirst (fun entry => entry.key == key) (fun entry => { entry with value }) list
  | .reorder keys => arrangeBy (fun entry => lastRank keys entry.key) list

end Edit

/-- The list after a sequence of edits. -/
def replay (placement : Placement) (list : List Entry) (edits : List Edit) : List Entry :=
  edits.foldl (Edit.perform placement) list

/-- What a remote can do with a plain list. -/
structure EditPolicy where
  /-- Where added entries land. -/
  placement : Placement
  /-- Whether one edit removes all entries at once. -/
  batched : Bool
  /-- Whether entries can only be added and reordered. -/
  addOnly : Bool
deriving DecidableEq, Repr

namespace EditPolicy

/-- Appends entries and removes them one by one. -/
def append : EditPolicy := ⟨.append, false, false⟩

/-- Inserts entries at their position and removes them all at once. -/
def atPosition : EditPolicy := ⟨.atPosition, true, false⟩

/-- Appends entries and neither removes nor changes them. -/
def additive : EditPolicy := ⟨.append, false, true⟩

/-- The edits that remove entries. -/
def remove (policy : EditPolicy) (removed : List Entry) : List Edit :=
  if policy.addOnly then []
  else if policy.batched then [.remove (removed.map (·.key))]
  else removed.map fun entry => .remove [entry.key]

/-- The edits that turn an entry into another of the same key. -/
def change (policy : EditPolicy) (old new : Entry) : List Edit :=
  if policy.addOnly || old.value == new.value then [] else [.setValue new.key new.value]

/-- The policy of the list. -/
def policy (policy : EditPolicy) : Policy Entry Edit where
  collection := "test elements"
  key := Entry.key
  placement := policy.placement
  remove := policy.remove
  change old new := .ok (policy.change old new)
  add := .add
  reorder new := some (.reorder (new.map (·.key)))

end EditPolicy

/-- The policy of a remote that adds entries and does nothing else. -/
def minimalPolicy : Policy Entry Edit where
  collection := "minimal elements"
  key := Entry.key
  add := .add

end CatalogSync.KeyedList
