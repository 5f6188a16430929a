import CatalogSync.Refusal

/-!
# Policies of keyed lists

A keyed list holds elements that are told apart by a key. What the remote can do with such a list
differs from one kind of list to the next; a `Policy` says which actions remove, change, add and
reorder its elements, and where an added element lands.
-/

namespace CatalogSync.KeyedList

/-- Where the remote places an added element. -/
inductive Placement where
  /-- At the end of the list, whatever position the action names. -/
  | append
  /-- At the position that the action names. -/
  | atPosition
deriving DecidableEq, Repr

/--
The actions `α` that a remote knows for one kind of list with elements `ε`.

A policy that leaves out `remove` or `change` describes a remote that cannot remove or modify
elements, one that leaves out `reorder` a remote that keeps the list unordered.
-/
structure Policy (ε α : Type) where
  /-- What the list is called in a refusal. -/
  collection : String
  /-- The key of an element. -/
  key : ε → String
  /-- Where added elements land. -/
  placement : Placement := .append
  /-- Removes elements; asked for a non-empty list only. -/
  remove : List ε → List α := fun _ => []
  /-- Turns an old element into a new one of the same key. -/
  change : ε → ε → Except Refusal (List α) := fun _ _ => .ok []
  /-- Adds an element that stands at a position of the new list. -/
  add : ε → Nat → α
  /-- Brings the list into the order of the complete new list. -/
  reorder : List ε → Option α := fun _ => none

end CatalogSync.KeyedList
