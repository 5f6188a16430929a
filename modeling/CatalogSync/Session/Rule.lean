import CatalogSync.Sync.World

/-!
# Rules of hooks

A rehearsal describes its hooks as lists of rules. A rule concerns the drafts of one key or all
drafts, and can be limited to a number of times. The rules of a hook act in order, each on what the
ones before it left.
-/

namespace CatalogSync

/-- A rule of a hook. -/
structure Rule (δ : Type) where
  /-- The key of the drafts concerned; all drafts if there is none. -/
  key : Option String := none
  /-- How many times the rule still fires; always if there is no limit. -/
  times : Option Nat := none
  /-- What the rule does. -/
  deed : δ

namespace Rule

variable {δ : Type}

/-- Whether the rule fires for a draft with a key. -/
def fires (rule : Rule δ) (key : String) : Bool :=
  rule.key.all (· == key) && rule.times != some 0

/-- The rule after it fired once. -/
def spend (rule : Rule δ) : Rule δ := { rule with times := rule.times.map (· - 1) }

end Rule

/-! ## Before a creation -/

/-- What a rule does with a draft that is about to be created. -/
inductive CreateDeed where
  /-- Drops the draft at once. -/
  | drop
  /-- Replaces members of the written draft. -/
  | merge (fields : List (String × Json))

/-- What the rules made of a draft. -/
structure Ruled (F : Family) where
  /-- The draft to create, unless it is dropped. -/
  answer : Option F.Draft
  /-- The rules as they are now. -/
  rules : List (Rule CreateDeed)
  /-- Whether every merged draft could be read. -/
  readable : Bool

/-- Lets the rules act on a draft that had a key at first. -/
def CreateDeed.ruleDraft {F : Family} (key : String) :
    List (Rule CreateDeed) → F.Draft → Ruled F
  | [], draft => ⟨some draft, [], true⟩
  | rule :: rest, draft =>
      if rule.fires key then
        match rule.deed with
        | .drop => ⟨none, rule.spend :: rest, true⟩
        | .merge fields =>
            match F.drafts.decode ((F.drafts.encode draft).replaceMembers fields) with
            | some merged =>
                let others := ruleDraft key rest merged
                { others with rules := rule.spend :: others.rules }
            | none => ⟨none, rule.spend :: rest, false⟩
      else
        let others := ruleDraft key rest draft
        { others with rules := rule :: others.rules }

/-! ## Before an update -/

/-- What a rule does with the actions that are about to be submitted. -/
inductive UpdateDeed (F : Family) where
  /-- Removes all actions. -/
  | clear
  /-- Removes the actions with these tags. -/
  | drop (tags : List String)
  /-- Keeps the actions with these tags only. -/
  | keep (tags : List String)
  /-- Turns the order of the actions around. -/
  | reverse
  /-- Adds actions at the end. -/
  | append (actions : List F.Action)
  /-- Changes the stored resource behind the back of the engine. -/
  | edit (fields : List (String × Json))
  /-- Takes the stored resource away. -/
  | removeRemote

/-- The tag of an action as it is written. -/
def Family.tagOf (F : Family) (action : F.Action) : String :=
  (((F.actions.encode action).get? "action").bind Json.asString?).getD ""

/-- The resource with some members replaced; absent if the result is no resource. -/
def Family.withMembers? (F : Family) (resource : F.Resource) (fields : List (String × Json)) :
    Option F.Resource :=
  F.resources.decode ((F.resources.encode resource).replaceMembers fields)

namespace UpdateDeed

variable {F : Family}

/-- Another writer replaces members of the resource under a key and advances its version. -/
def editRemote (remote : Remote F) (key : String) (fields : List (String × Json)) :
    Option (Remote F) :=
  match remote.resources.get? key with
  | none => some remote
  | some stored =>
      (F.withMembers? stored
        ([("version", Codec.word.encode (F.version stored + 1))] ++ fields)).map remote.insert

/-- The actions to submit and the remote after a deed; absent if an edit cannot be read. -/
def perform (deed : UpdateDeed F) (old : F.Resource) (actions : List F.Action)
    (remote : Remote F) : Option (List F.Action × Remote F) :=
  match deed with
  | .clear => some ([], remote)
  | .drop tags => some (actions.filter fun action => !tags.contains (F.tagOf action), remote)
  | .keep tags => some (actions.filter fun action => tags.contains (F.tagOf action), remote)
  | .reverse => some (actions.reverse, remote)
  | .append further => some (actions ++ further, remote)
  | .edit fields => (editRemote remote (F.key old) fields).map (actions, ·)
  | .removeRemote => some (actions, remote.remove (F.key old))

/-- Lets the rules act on the actions for a draft with a key, and tells whether all was readable. -/
def ruleActions (key : String) (old : F.Resource) :
    List (Rule (UpdateDeed F)) → List F.Action → Remote F →
      List F.Action × Remote F × List (Rule (UpdateDeed F)) × Bool
  | [], actions, remote => (actions, remote, [], true)
  | rule :: rest, actions, remote =>
      if rule.fires key then
        match rule.deed.perform old actions remote with
        | some done =>
            let others := ruleActions key old rest done.1 done.2
            (others.1, others.2.1, rule.spend :: others.2.2.1, others.2.2.2)
        | none => (actions, remote, rule.spend :: rest, false)
      else
        let others := ruleActions key old rest actions remote
        (others.1, others.2.1, rule :: others.2.2.1, others.2.2.2)

end UpdateDeed

end CatalogSync
