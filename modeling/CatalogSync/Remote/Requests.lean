import CatalogSync.Remote.History

/-!
# Requests of clients

Any number of clients may use a remote service at the same time. It serves their requests one after
another, in whatever order they arrive, so what the clients do together is a list of requests, and
what they get is a list of replies. Between them the answers of later calls may be scripted.

A request and its reply make up a call as its client knows it. What such calls did to one key is
read off from them: which resource was created under the key, and which updates of it succeeded.

## Main results

* `Request.isSome_call?`: every request but the scripting ones makes a call.
* `Remote.handle_call`: the log shows the call that the client knows, and the call fits the contents
  and has written what it tells.
-/

namespace CatalogSync

/-- What is asked of a remote service, or scripted for it. -/
inductive Request (F : Family) where
  /-- Looks resources up by their keys. -/
  | lookup (keys : KeySet)
  /-- Fetches a resource by its identifier. -/
  | fetch (id : String)
  /-- Creates a resource from a draft. -/
  | create (draft : F.Draft)
  /-- Submits actions for a resource in the version in which a client has it. -/
  | update (resource : F.Resource) (actions : List F.Action)
  /-- Asks which keys exist. -/
  | resolve (keys : KeySet)
  /-- A fault is scripted for a look-up. -/
  | failLookup (fault : RemoteFault)
  /-- The answer of a fetch is scripted. -/
  | scriptFetch (answer : Scripted)
  /-- The answer of a creation is scripted. -/
  | scriptCreate (answer : Scripted)
  /-- A fault is scripted for an update. -/
  | failUpdate (fault : RemoteFault)

/-- What a request is answered. -/
inductive Reply (F : Family) where
  /-- The reply to a look-up. -/
  | found (answer : Except RemoteFault (List F.Resource))
  /-- The reply to a fetch. -/
  | fetched (answer : Except RemoteFault (Option F.Resource))
  /-- The reply to a creation. -/
  | created (answer : Except RemoteFault (Option F.Resource))
  /-- The reply to an update. -/
  | updated (answer : Except RemoteFault F.Resource)
  /-- The reply to the question which keys exist. -/
  | existing (answer : KeySet)
  /-- An answer was scripted. -/
  | scripted

variable {F : Family}

namespace Remote

/-- Serves one request. -/
def handle (remote : Remote F) : Request F → Reply F × Remote F
  | .lookup keys => (.found (remote.lookup keys).1, (remote.lookup keys).2)
  | .fetch id => (.fetched (remote.fetch id).1, (remote.fetch id).2)
  | .create draft => (.created (remote.create draft).1, (remote.create draft).2)
  | .update resource actions =>
      (.updated (remote.update resource actions).1, (remote.update resource actions).2)
  | .resolve keys => (.existing (remote.resolve keys).1, (remote.resolve keys).2)
  | .failLookup fault => (.scripted, remote.failLookup fault)
  | .scriptFetch answer => (.scripted, remote.scriptFetch answer)
  | .scriptCreate answer => (.scripted, remote.scriptCreate answer)
  | .failUpdate fault => (.scripted, remote.failUpdate fault)

/-- Serves a number of requests, one after another; the reply to each, in order. -/
def handleAll : Remote F → List (Request F) → List (Reply F) × Remote F
  | remote, [] => ([], remote)
  | remote, request :: rest =>
      let first := remote.handle request
      let others := handleAll first.2 rest
      (first.1 :: others.1, others.2)

/-- The first requests are served without regard to the later ones. -/
theorem handleAll_append {remote : Remote F} {front back : List (Request F)} :
    remote.handleAll (front ++ back) =
      ((remote.handleAll front).1 ++ ((remote.handleAll front).2.handleAll back).1,
        ((remote.handleAll front).2.handleAll back).2) := by
  induction front generalizing remote with
  | nil => rfl
  | cons request rest ih =>
      simp only [List.cons_append, handleAll]
      rw [ih]

/-- Every request has a reply. -/
theorem length_handleAll {remote : Remote F} {requests : List (Request F)} :
    (remote.handleAll requests).1.length = requests.length := by
  induction requests generalizing remote with
  | nil => rfl
  | cons request rest ih => exact congrArg (· + 1) ih

end Remote

/-! ## Calls as their clients know them -/

/-- Whether a reply holds a resource that was created or updated. -/
def Reply.isFruitful : Reply F → Bool
  | .created (.ok (some _)) | .updated (.ok _) => true
  | _ => false

namespace Request

/-- Whether a request is a call; the others script an answer. -/
def isCall : Request F → Bool
  | .lookup _ | .fetch _ | .create _ | .update .. | .resolve _ => true
  | _ => false

/-- The call that a request made if it got a reply. -/
def call? : Request F → Reply F → Option (Call F)
  | .lookup keys, .found answer => some (.lookup keys answer)
  | .fetch id, .fetched answer => some (.fetch id answer)
  | .create draft, .created answer => some (.create draft answer)
  | .update resource actions, .updated answer => some (.update resource actions answer)
  | .resolve keys, .existing _ => some (.resolve keys)
  | _, _ => none

/-- Every request but the scripting ones makes a call, whatever its reply is. -/
theorem isSome_call? {remote : Remote F} {request : Request F} :
    (request.call? (remote.handle request).1).isSome = request.isCall := by
  cases request <;> rfl

end Request

/-- The calls that requests made if they got certain replies, one after another. -/
def callsOf (requests : List (Request F)) (replies : List (Reply F)) : List (Call F) :=
  (requests.zip replies).filterMap fun exchange => exchange.1.call? exchange.2

theorem callsOf_cons {request : Request F} {reply : Reply F} {requests : List (Request F)}
    {replies : List (Reply F)} : callsOf (request :: requests) (reply :: replies) =
      (request.call? reply).toList ++ callsOf requests replies := by
  rw [callsOf, List.zip_cons_cons, List.filterMap_cons]
  cases request.call? reply <;> rfl

/-! ## What calls tell of a key -/

namespace Call

/-- Whether a call answered a resource that it created or updated. Any other call answered a fault,
or no resource, or it only asked. -/
def isFruitful : Call F → Bool
  | .create _ (.ok (some _)) => true
  | .update _ _ (.ok _) => true
  | _ => false

/-- The resource that a call created under a key. -/
def created? (key : String) : Call F → Option F.Resource
  | .create draft (.ok (some resource)) => if key = F.keyOf draft then some resource else none
  | _ => none

/-- The version and the actions with which a call updated the resource of a key. -/
def updated? (key : String) : Call F → Option (UInt64 × List F.Action)
  | .update old actions (.ok _) =>
      if key = F.key old then some (F.version old, actions) else none
  | _ => none

/-- Whether a call is one that a service with certain contents may make and answer like this. -/
def Fits (resources : KeyMap F.Resource) : Call F → Prop
  | .create draft (.ok (some resource)) => ∃ key id, F.draftKey draft = some key ∧
      ¬ key ∈ resources.keys ∧ resource = F.materialize draft id
  | .update old actions (.ok updated) => ∃ stored, resources.get? (F.key old) = some stored ∧
      F.version stored = F.version old ∧ updated = F.apply stored actions
  | _ => True

/-- A call is fruitful exactly when its reply is. -/
theorem isFruitful_of_call? {request : Request F} {reply : Reply F} {call : Call F}
    (hCall : request.call? reply = some call) : call.isFruitful = reply.isFruitful := by
  unfold Request.call? at hCall
  split at hCall <;> cases hCall
  · rfl
  · rfl
  · rename_i answer
    rcases answer with _ | (_ | _) <;> rfl
  · rename_i answer
    cases answer <;> rfl
  · rfl

theorem write_of_not_fruitful {resources : KeyMap F.Resource} {call : Call F}
    (hVain : ¬ call.isFruitful = true) : call.write resources = resources := by
  unfold isFruitful at hVain
  unfold write
  split
  · exact absurd rfl hVain
  · exact absurd rfl hVain
  · rfl

theorem created?_of_not_fruitful {call : Call F} {key : String}
    (hVain : ¬ call.isFruitful = true) : call.created? key = none := by
  unfold created?
  split
  · exact absurd rfl hVain
  · rfl

theorem updated?_of_not_fruitful {call : Call F} {key : String}
    (hVain : ¬ call.isFruitful = true) : call.updated? key = none := by
  unfold updated?
  split
  · exact absurd rfl hVain
  · rfl

end Call

/-- The first resources under a key: the one that was there, and those that were created. -/
def origins (resources : KeyMap F.Resource) (calls : List (Call F)) (key : String) :
    List F.Resource :=
  (resources.get? key).toList ++ calls.filterMap (Call.created? key)

/-- The versions and the actions of the successful updates of a key, the earliest first. -/
def updatesOf (calls : List (Call F)) (key : String) : List (UInt64 × List F.Action) :=
  calls.filterMap (Call.updated? key)

/-- The resource after updates of it, one after another. -/
def Family.applyAll (F : Family) (resource : F.Resource)
    (updates : List (UInt64 × List F.Action)) : F.Resource :=
  updates.foldl (fun current update => F.apply current update.2) resource

namespace Remote

/-- A request scripts an answer, or it makes one call, which its client knows by the reply. The log
shows this call and no other; the call fits the contents and has written what it tells. -/
theorem handle_call {remote : Remote F} {request : Request F} :
    (request.call? (remote.handle request).1 = none ∧
        (remote.handle request).2.log = remote.log ∧
        (remote.handle request).2.resources = remote.resources) ∨
      ∃ call : Call F, request.call? (remote.handle request).1 = some call ∧
        (remote.handle request).2.log = remote.log ++ [call] ∧
        call.Fits remote.resources ∧
        (remote.handle request).2.resources = call.write remote.resources := by
  cases request with
  | lookup keys => exact Or.inr ⟨.lookup keys _, rfl, rfl, trivial, lookup_resources⟩
  | fetch id => exact Or.inr ⟨.fetch id _, rfl, rfl, trivial, fetch_resources⟩
  | resolve keys => exact Or.inr ⟨.resolve keys, rfl, rfl, trivial, resolve_resources⟩
  | create draft =>
      refine Or.inr ⟨remote.creation draft, rfl, rfl, ?_, create_write⟩
      unfold creation
      cases hAnswer : remote.createAnswer draft with
      | error fault => exact trivial
      | ok answer =>
          cases answer with
          | none => exact trivial
          | some resource => exact fresh_of_createAnswer hAnswer
  | update old actions =>
      refine Or.inr ⟨remote.change old actions, rfl, rfl, ?_, update_write⟩
      unfold change
      cases hAnswer : remote.updateAnswer old actions with
      | error fault => exact trivial
      | ok updated => exact stored_of_updateAnswer hAnswer
  | _ => exact Or.inl ⟨rfl, rfl, rfl⟩

end Remote

end CatalogSync
