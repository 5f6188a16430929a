import CatalogSync.Session.Rule
import CatalogSync.Sync.Options

/-!
# Notes of a rehearsal

What the hooks and the resolver of a rehearsed engine remember: the rules with the times they
still fire, faults scripted for the resolver, the keys that exist elsewhere, and the keys that
created drafts were given.
-/

namespace CatalogSync

/-- What the hooks and the resolver of a rehearsed engine remember. -/
structure Notes (F : Family) where
  /-- The rules of the hook before a creation. -/
  createRules : List (Rule CreateDeed) := []
  /-- The rules of the hook before an update. -/
  updateRules : List (Rule (UpdateDeed F)) := []
  /-- Faults for the next calls of the resolver. -/
  resolverFaults : List RemoteFault := []
  /-- Keys that exist although the remote does not hold them. -/
  elsewhere : KeySet := ∅
  /-- The keys that were named so far. -/
  named : KeySet := ∅
  /-- Whether everything that a rule wrote could be read back. -/
  readable : Bool := true

namespace Notes

variable {F : Family}

/-- Notes that a key was named. -/
def name (notes : Notes F) (key : Option String) : Notes F :=
  match key with
  | some key => { notes with named := notes.named.insert key }
  | none => notes

/-- The hook before a creation: the rules act, and the key of the draft they leave is named. -/
def beforeCreate (world : World F (Notes F)) (draft : F.Draft) :
    Option F.Draft × World F (Notes F) :=
  let ruled := CreateDeed.ruleDraft (F.keyOf draft) world.notes.createRules draft
  let notes := { world.notes with
    createRules := ruled.rules
    readable := world.notes.readable && ruled.readable }
  (ruled.answer, world.withNotes (notes.name (ruled.answer.bind F.draftKey)))

/-- The hook before an update: the rules act on the actions and may reach for the remote. -/
def beforeUpdate (world : World F (Notes F)) (draft : F.Draft) (old : F.Resource)
    (actions : List F.Action) : List F.Action × World F (Notes F) :=
  let ruled := UpdateDeed.ruleActions (F.keyOf draft) old world.notes.updateRules actions
    world.remote
  let notes := { world.notes with
    updateRules := ruled.2.2.1
    readable := world.notes.readable && ruled.2.2.2 }
  (ruled.1, (world.withRemote ruled.2.1).withNotes notes)

/-- The resolver: a scripted fault, or what the remote holds and what exists elsewhere. -/
def resolver : Resolver F (Notes F) := fun world keys =>
  match world.notes.resolverFaults with
  | fault :: rest => (.error fault, world.withNotes { world.notes with resolverFaults := rest })
  | [] =>
      let asked := world.remote.resolve keys
      (.ok (asked.1.union (world.notes.elsewhere.inter keys)), world.withRemote asked.2)

end Notes

end CatalogSync
