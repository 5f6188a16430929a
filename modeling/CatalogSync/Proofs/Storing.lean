import CatalogSync.Proofs.Encoding
import CatalogSync.Staging.Requests
import Mathlib.Logic.Function.Basic

/-!
# A shelf of records is a map for each container

Records are written as documents into containers within a shelf, and one queue of scripted faults
meets the calls on all of them. To the areas that share the shelf none of this shows: for each
container there is a map from keys to records, every call that meets no fault reads or writes the
map of its own container, and a call that meets one does nothing but use it up.

A `Ledger` holds those maps, and `Ledger.Answers` lists what a request may be answered. A record
has to be one that a document can hold, as all are whose family has no amounts.

## Main results

* `Shelf.handle_answers`: a request is answered as the ledger says, and changes it likewise.
* `Shelf.handleAll_answers`: so are all requests, in any order.
* `Shelf.stores_records`: areas that share an empty shelf find a map for each container in it.
-/

namespace CatalogSync

namespace Shelf

variable {kind : String → Family}

/-! ## Ledgers -/

/-- What a shelf stands for: a map from keys to records for each container, and the scripted faults,
the oldest first. -/
structure Ledger (kind : String → Family) where
  /-- The records of each container by key. -/
  held : (container : String) → KeyMap (Parked (kind container)) := fun _ => KeyMap.empty
  /-- Faults for the next calls, the oldest first. -/
  faults : List RemoteFault := []

/-- The ledger with other records in one container. -/
def Ledger.withRecords (ledger : Ledger kind) (container : String)
    (records : KeyMap (Parked (kind container))) : Ledger kind :=
  { ledger with held := Function.update ledger.held container records }

/-- The ledger with other scripted faults. -/
def Ledger.withFaults (ledger : Ledger kind) (faults : List RemoteFault) : Ledger kind :=
  { ledger with faults }

@[simp] theorem Ledger.held_withRecords_self {ledger : Ledger kind} {container : String}
    {records : KeyMap (Parked (kind container))} :
    (ledger.withRecords container records).held container = records := by
  show Function.update ledger.held container records container = records
  rw [Function.update_self]

/-- The other containers hold what they held. -/
theorem Ledger.held_withRecords_ne {ledger : Ledger kind} {container other : String}
    {records : KeyMap (Parked (kind container))} (hNe : other ≠ container) :
    (ledger.withRecords container records).held other = ledger.held other := by
  show Function.update ledger.held container records other = ledger.held other
  rw [Function.update_of_ne hNe]

namespace Request

/-- Whether a request makes a call. Scripting makes none, and neither does asking for no key. -/
def isCall : Request kind → Bool
  | .save .. | .delete .. => true
  | .fetch _ _ keys => !keys.isEmpty
  | .failNext _ => false

/-- The reply to a call that meets a fault: a fetch answers it; the other calls report it once, if
reports are asked for, and answer nothing. -/
def failure (fault : RemoteFault) : Request kind → Reply kind
  | .save container reporting record => .saved container none
      ((⟨container, reporting⟩ : Area (kind container)).reported "save" record.key (.remote fault))
  | .fetch container _ _ => .fetched container (.error (.remote fault))
  | .delete container reporting key => .deleted container none
      ((⟨container, reporting⟩ : Area (kind container)).reported "delete" key (.remote fault))
  | .failNext _ => .scripted

/-- A request saves no record that cannot be read back. -/
def IsReadable : Request kind → Prop
  | .save container _ record => (kind container).drafts.Restores record.draft
  | _ => True

/-- All records of a family can be read back if a document can hold all its drafts. -/
theorem isReadable_of_expressible {container : String} {reporting : Bool}
    {record : Parked (kind container)} {SoundResource : (kind container).Resource → Prop}
    {SoundAction : (kind container).Action → Prop}
    (hFamily : (kind container).Expressible (fun _ => True) SoundResource SoundAction) :
    (Request.save container reporting record).IsReadable := hFamily.restores_draft trivial

end Request

/-- What a request is answered, and what the ledger is afterwards. -/
inductive Ledger.Answers : Ledger kind → Request kind → Reply kind → Ledger kind → Prop
  /-- A call that meets a fault uses up the oldest one and changes no container. -/
  | fail {ledger : Ledger kind} {request : Request kind} {fault : RemoteFault}
      {faults : List RemoteFault} (hCall : request.isCall = true)
      (hFaults : ledger.faults = fault :: faults) :
      Answers ledger request (request.failure fault) (ledger.withFaults faults)
  /-- A save sets the key of the record in its container. -/
  | save {ledger : Ledger kind} {container : String} {reporting : Bool}
      {record : Parked (kind container)} (hCalm : ledger.faults = []) :
      Answers ledger (.save container reporting record) (.saved container (some record) [])
        (ledger.withRecords container ((ledger.held container).insert record.key record))
  /-- A fetch answers the records under the keys, by increasing key. -/
  | fetch {ledger : Ledger kind} {container : String} {reporting : Bool} {keys : KeySet}
      (hCalm : ledger.faults = []) :
      Answers ledger (.fetch container reporting keys)
        (.fetched container (.ok ((ledger.held container).select keys))) ledger
  /-- A fetch of no key answers no record, whatever is scripted, and uses no fault up. -/
  | fetchNone {ledger : Ledger kind} {container : String} {reporting : Bool} :
      Answers ledger (.fetch container reporting ∅) (.fetched container (.ok [])) ledger
  /-- A deletion answers the record under the key, if there is one, and removes the key. -/
  | delete {ledger : Ledger kind} {container : String} {reporting : Bool} {key : String}
      (hCalm : ledger.faults = []) :
      Answers ledger (.delete container reporting key)
        (.deleted container ((ledger.held container).get? key) [])
        (ledger.withRecords container ((ledger.held container).erase key))
  /-- A scripted fault is the last in line. -/
  | failNext {ledger : Ledger kind} {fault : RemoteFault} :
      Answers ledger (.failNext fault) .scripted (ledger.withFaults (ledger.faults ++ [fault]))

/-- What requests are answered one after another, and what the ledger is in the end. -/
inductive Ledger.AnswersAll :
    Ledger kind → List (Request kind) → List (Reply kind) → Ledger kind → Prop
  | nil {ledger : Ledger kind} : AnswersAll ledger [] [] ledger
  | cons {before middle after : Ledger kind} {request : Request kind} {reply : Reply kind}
      {requests : List (Request kind)} {replies : List (Reply kind)}
      (hFirst : before.Answers request reply middle)
      (hRest : AnswersAll middle requests replies after) :
      AnswersAll before (request :: requests) (reply :: replies) after

/-! ## Shelves that stand for a ledger -/

/-- A shelf stands for a ledger: the records, all of which can be read back, are written under their
keys and nothing else is, and the same faults are scripted. -/
structure StandsFor (shelf : Shelf) (ledger : Ledger kind) : Prop where
  contents : ∀ container key, shelf.get? container key =
    ((ledger.held container).get? key).map Parked.codec.encode
  readable : ∀ container key record, (ledger.held container).get? key = some record →
    Parked.codec.decode (Parked.codec.encode record) = some record
  faults : shelf.faults = ledger.faults

variable {shelf : Shelf} {ledger : Ledger kind} {container : String} {reporting : Bool}

theorem standsFor_empty : StandsFor {} ({} : Ledger kind) where
  contents _ _ := rfl
  readable _ _ _ hHeld := nomatch hHeld
  faults := rfl

/-- The shelf stands for the ledger with the same faults scripted. -/
theorem StandsFor.withFaults {other : Shelf} {faults : List RemoteFault}
    (hStands : shelf.StandsFor ledger) (hContainers : other.containers = shelf.containers)
    (hFaults : other.faults = faults) : other.StandsFor (ledger.withFaults faults) where
  contents container key := by
    rw [get?, Shelf.container, hContainers]
    exact hStands.contents container key
  readable := hStands.readable
  faults := hFaults

/-- The shelf stands for the ledger with the same records in a container. -/
theorem StandsFor.withRecords {values : KeyMap Json} {records : KeyMap (Parked (kind container))}
    (hStands : shelf.StandsFor ledger)
    (hValues : ∀ key, values.get? key = (records.get? key).map Parked.codec.encode)
    (hReadable : ∀ key record, records.get? key = some record →
      Parked.codec.decode (Parked.codec.encode record) = some record) :
    (shelf.withContainer container values).StandsFor (ledger.withRecords container records) where
  contents other key := by
    rw [get?_withContainer]
    by_cases hSame : other = container
    · subst hSame
      rw [if_pos rfl, Ledger.held_withRecords_self]
      exact hValues key
    · rw [if_neg hSame, Ledger.held_withRecords_ne hSame]
      exact hStands.contents other key
  readable other key record hHeld := by
    by_cases hSame : other = container
    · subst hSame
      rw [Ledger.held_withRecords_self] at hHeld
      exact hReadable key record hHeld
    · rw [Ledger.held_withRecords_ne hSame] at hHeld
      exact hStands.readable other key record hHeld
  faults := hStands.faults

/-- The documents under a list of keys are read back as the records that they were written from. -/
theorem StandsFor.read (hStands : shelf.StandsFor ledger) (container : String)
    (keys : List String) :
    (keys.filterMap fun key => (shelf.get? container key).map (key, ·)).mapM
        (fun entry => (Parked.codec (F := kind container)).decode entry.2) =
      some (keys.filterMap (ledger.held container).get?) := by
  induction keys with
  | nil => rfl
  | cons key rest ih =>
      rw [List.filterMap_cons, List.filterMap_cons, hStands.contents]
      cases hHeld : (ledger.held container).get? key with
      | none => exact ih
      | some record =>
          have hRecord := hStands.readable container key record hHeld
          simp [hRecord, ih]

/-! ## Single requests -/

/-- A call that meets a fault. -/
theorem handle_of_fault {request : Request kind} {fault : RemoteFault} {faults : List RemoteFault}
    (hStands : shelf.StandsFor ledger) (hCall : request.isCall = true)
    (hFaults : shelf.faults = fault :: faults) :
    (shelf.handle request).1 = request.failure fault ∧
      (shelf.handle request).2.StandsFor (ledger.withFaults faults) := by
  have hTail : shelf.withoutFault.faults = faults := congrArg List.tail hFaults
  cases request with
  | save container reporting record =>
      simp only [handle, Area.save_of_fault hFaults]
      exact ⟨rfl, hStands.withFaults rfl hTail⟩
  | fetch container reporting keys =>
      have hSome : ¬ keys.isEmpty = true := by simpa [Request.isCall] using hCall
      simp only [handle, Area.fetch_of_fault hSome hFaults]
      exact ⟨rfl, hStands.withFaults rfl hTail⟩
  | delete container reporting key =>
      simp only [handle, Area.delete_of_fault hFaults]
      exact ⟨rfl, hStands.withFaults rfl hTail⟩
  | failNext fault => cases hCall

/-- A save that meets no fault. -/
theorem handle_save {record : Parked (kind container)} (hStands : shelf.StandsFor ledger)
    (hCalm : shelf.faults = [])
    (hReadable : (Request.save container reporting record).IsReadable) :
    (shelf.handle (.save container reporting record)).1 = .saved container (some record) [] ∧
      (shelf.handle (.save container reporting record)).2.StandsFor (ledger.withRecords container
        ((ledger.held container).insert record.key record)) := by
  simp only [handle, Area.save_of_calm hCalm]
  refine ⟨trivial, hStands.withRecords (fun key => ?_) fun key other hHeld => ?_⟩
  · rw [KeyMap.get?_insert, KeyMap.get?_insert]
    split
    · rfl
    · exact hStands.contents container key
  · rw [KeyMap.get?_insert] at hHeld
    split at hHeld
    · cases hHeld
      exact Parked.decode_encode_of_draft hReadable
    · exact hStands.readable container key other hHeld

/-- A fetch of some key that meets no fault. -/
theorem handle_fetch {keys : KeySet} (hStands : shelf.StandsFor ledger)
    (hCalm : shelf.faults = []) (hSome : ¬ keys.isEmpty = true) :
    (shelf.handle (.fetch container reporting keys)).1 =
        (Reply.fetched container (.ok ((ledger.held container).select keys)) : Reply kind) ∧
      (shelf.handle (.fetch container reporting keys : Request kind)).2.StandsFor ledger := by
  have hRead := hStands.read container keys.toList
  simp only [handle, Area.fetch, if_neg hSome, Shelf.fetch, hCalm, hRead]
  exact ⟨rfl, hStands.contents, hStands.readable, hCalm.symm.trans hStands.faults⟩

/-- A deletion that meets no fault. -/
theorem handle_delete {key : String} (hStands : shelf.StandsFor ledger)
    (hCalm : shelf.faults = []) :
    (shelf.handle (.delete container reporting key)).1 =
        (Reply.deleted container ((ledger.held container).get? key) [] : Reply kind) ∧
      (shelf.handle (.delete container reporting key : Request kind)).2.StandsFor
        (ledger.withRecords container ((ledger.held container).erase key)) := by
  have hErased : (shelf.withContainer container ((shelf.container container).erase key)).StandsFor
      (ledger.withRecords container ((ledger.held container).erase key)) := by
    refine hStands.withRecords (fun other => ?_) fun other record hHeld => ?_
    · by_cases hSame : other = key
      · rw [hSame, KeyMap.get?_erase_self, KeyMap.get?_erase_self]
        rfl
      · rw [KeyMap.get?_erase_ne hSame, KeyMap.get?_erase_ne hSame]
        exact hStands.contents container other
    · by_cases hSame : other = key
      · rw [hSame, KeyMap.get?_erase_self] at hHeld
        cases hHeld
      · rw [KeyMap.get?_erase_ne hSame] at hHeld
        exact hStands.readable container other record hHeld
  simp only [handle, Area.delete, Shelf.delete, hCalm, hStands.contents container key]
  cases hHeld : (ledger.held container).get? key with
  | none => exact ⟨rfl, hErased⟩
  | some record =>
      simp only [Option.map_some, hStands.readable container key record hHeld]
      exact ⟨trivial, hErased⟩

/-- A request is answered as the ledger says, and the shelf stands for the ledger afterwards. -/
theorem handle_answers {request : Request kind} (hStands : shelf.StandsFor ledger)
    (hReadable : request.IsReadable) :
    ∃ after, ledger.Answers request (shelf.handle request).1 after ∧
      (shelf.handle request).2.StandsFor after := by
  by_cases hCall : request.isCall = true
  · cases hFaults : ledger.faults with
    | cons fault faults =>
        obtain ⟨hReply, hAfter⟩ := handle_of_fault hStands hCall (hStands.faults.trans hFaults)
        exact ⟨_, hReply ▸ .fail hCall hFaults, hAfter⟩
    | nil =>
        have hCalm : shelf.faults = [] := hStands.faults.trans hFaults
        cases request with
        | save container reporting record =>
            obtain ⟨hReply, hAfter⟩ := handle_save hStands hCalm hReadable
            exact ⟨_, hReply ▸ .save hFaults, hAfter⟩
        | fetch container reporting keys =>
            have hSome : ¬ keys.isEmpty = true := by simpa [Request.isCall] using hCall
            obtain ⟨hReply, hAfter⟩ := handle_fetch hStands hCalm hSome
            exact ⟨_, hReply ▸ .fetch hFaults, hAfter⟩
        | delete container reporting key =>
            obtain ⟨hReply, hAfter⟩ := handle_delete hStands hCalm
            exact ⟨_, hReply ▸ .delete hFaults, hAfter⟩
        | failNext fault => cases hCall
  · cases request with
    | fetch container reporting keys =>
        have hNone : keys.isEmpty = true := by simpa [Request.isCall] using hCall
        have hEmpty : keys = ∅ := KeySet.ext fun key =>
          iff_of_false (KeySet.isEmpty_iff.mp hNone key) KeySet.not_mem_empty
        subst hEmpty
        exact ⟨ledger, .fetchNone, hStands⟩
    | failNext fault =>
        refine ⟨_, .failNext, hStands.withFaults rfl ?_⟩
        exact congrArg (· ++ [fault]) hStands.faults
    | save => exact absurd rfl hCall
    | delete => exact absurd rfl hCall

/-! ## Any number of requests -/

/-- Requests are answered as the ledger says, one after another. -/
theorem handleAll_answers {requests : List (Request kind)} (hStands : shelf.StandsFor ledger)
    (hReadable : ∀ request ∈ requests, request.IsReadable) :
    ∃ after, ledger.AnswersAll requests (shelf.handleAll requests).1 after ∧
      (shelf.handleAll requests).2.StandsFor after := by
  induction requests generalizing shelf ledger with
  | nil => exact ⟨ledger, .nil, hStands⟩
  | cons request rest ih =>
      obtain ⟨middle, hFirst, hMiddle⟩ :=
        handle_answers hStands (hReadable request (List.mem_cons_self ..))
      obtain ⟨after, hRest, hAfter⟩ :=
        ih hMiddle fun other hOther => hReadable other (List.mem_cons_of_mem _ hOther)
      exact ⟨after, .cons hFirst hRest, hAfter⟩

/--
Areas that share an empty shelf find in it a map from keys to records for each container, with
failures that are atomic. Whatever they ask for, in whatever order and whatever is scripted in
between, each request is answered as `Ledger.Answers` says. In the end the shelf holds, under each
key of each container, the document of the record that the map holds there, and the faults that are
still scripted are those that no call has met.
-/
theorem stores_records {requests : List (Request kind)}
    (hReadable : ∀ request ∈ requests, request.IsReadable) :
    ∃ after : Ledger kind,
      Ledger.AnswersAll {} requests (({} : Shelf).handleAll requests).1 after ∧
        (({} : Shelf).handleAll requests).2.faults = after.faults ∧
        ∀ container key, (({} : Shelf).handleAll requests).2.get? container key =
          ((after.held container).get? key).map Parked.codec.encode := by
  obtain ⟨after, hAnswers, hStands⟩ := handleAll_answers standsFor_empty hReadable
  exact ⟨after, hAnswers, hStands.faults, hStands.contents⟩

/-- A save meets a fault and is repeated, and a deletion meets another one: the record is held in its
container, and in no other. -/
theorem stores_records_child :
    let names : LocalizedText := ⟨KeyMap.empty⟩
    let record : Parked Family.category :=
      ⟨"child", (Category.Draft.basic "child" names names).withParent "men", KeySet.singleton "men"⟩
    let requests : List (Request fun _ => Family.category) :=
      [ .failNext (.other "down")
      , .fetch "shop" true ∅
      , .save "shop" true record
      , .save "shop" true record
      , .failNext (.other "down")
      , .delete "shop" true "child"
      , .delete "attic" true "child" ]
    ∃ after : Ledger fun _ => Family.category,
      Ledger.AnswersAll {} requests (({} : Shelf).handleAll requests).1 after ∧
        ((after.held "shop").get? "child").map Parked.draft = some record.draft ∧
        (after.held "attic").get? "child" = none := by
  intro names record requests
  have hReadable : ∀ request ∈ requests, request.IsReadable := by
    intro request hRequest
    simp only [requests, List.mem_cons, List.not_mem_nil, or_false] at hRequest
    rcases hRequest with rfl | rfl | rfl | rfl | rfl | rfl | rfl
    case inr.inr.inl => exact Request.isReadable_of_expressible .category
    case inr.inr.inr.inl => exact Request.isReadable_of_expressible .category
    all_goals exact trivial
  have hShop : ((({} : Shelf).handleAll requests).2.get? "shop" "child" >>=
      (Parked.codec (F := Family.category)).decode).map Parked.draft = some record.draft := by
    decide +kernel
  have hAttic : ((({} : Shelf).handleAll requests).2.get? "attic" "child").isNone = true := by
    decide +kernel
  obtain ⟨after, hAnswers, -, hContents⟩ := stores_records hReadable
  refine ⟨after, hAnswers, ?_, ?_⟩
  · rw [hContents] at hShop
    cases hHeld : (after.held "shop").get? "child" with
    | none =>
        rw [hHeld] at hShop
        cases hShop
    | some held =>
        have hRead : Parked.codec.decode (Parked.codec.encode held) = some held :=
          Parked.decode_encode_of_draft (Category.Draft.faithful_codec held.draft)
        rw [hHeld, Option.map_some, Option.bind_eq_bind, Option.bind_some, hRead] at hShop
        exact hShop
  · rw [hContents, Option.isNone_iff_eq_none, Option.map_eq_none_iff] at hAttic
    exact hAttic

end Shelf

end CatalogSync
