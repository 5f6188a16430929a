import CatalogSync.Proofs.Advancing
import CatalogSync.Remote.Requests
import Mathlib.Data.List.Nodup

/-!
# The guard of the version

A remote service updates a resource only for a client that has it in the version that is stored.
What the clients requested and what they were answered is found in the log, call by call, and every
call fits the contents that it met. So the resource under a key is the first one after all the updates
whose clients were answered success, each of which was submitted in the version that the updates
before it had left. No update overwrites another one that its client has not seen.

## Main results

* `Served.handleAll`: requests make calls that fit the contents one after another.
* `Served.recounts`: what the calls did to a key.
* `Remote.loses_no_update`: no update is lost.
-/

namespace CatalogSync

variable {F : Family}

/-! ## Versions -/

/-- Updates advance the version by their number. -/
theorem Family.Advances.version_applyAll (hAdvances : F.Advances) (base : F.Resource)
    (updates : List (UInt64 × List F.Action)) :
    F.version (F.applyAll base updates) = F.version base + UInt64.ofNat updates.length := by
  induction updates generalizing base with
  | nil => exact (UInt64.add_zero _).symm
  | cons update rest ih =>
      show F.version (F.applyAll (F.apply base update.2) rest) = _
      rw [ih, hAdvances.version_apply, List.length_cons, UInt64.ofNat_add, UInt64.add_assoc]
      congr 1
      exact UInt64.add_comm ..

/-- As long as no version overflows, counting up from one gives different versions. -/
theorem toNat_add_ofNat {version : UInt64} {count bound : Nat} (hCount : count ≤ bound)
    (hRoom : version.toNat + bound < 2 ^ 64) :
    (version + UInt64.ofNat count).toNat = version.toNat + count := by
  rw [UInt64.toNat_add, UInt64.toNat_ofNat']
  omega

theorem nodup_versions {version : UInt64} {bound : Nat} (hRoom : version.toNat + bound < 2 ^ 64) :
    ((List.range bound).map fun count => version + UInt64.ofNat count).Nodup := by
  refine List.Nodup.map_on (fun left hLeft right hRight hSame => ?_) List.nodup_range
  have hToNat := congrArg UInt64.toNat hSame
  rw [toNat_add_ofNat (Nat.le_of_lt (List.mem_range.mp hLeft)) hRoom,
    toNat_add_ofNat (Nat.le_of_lt (List.mem_range.mp hRight)) hRoom] at hToNat
  exact Nat.add_left_cancel hToNat

/-! ## Calls that fit -/

/-- Calls of a service, each of which fits what the ones before it left of the contents. -/
inductive Served (initial : KeyMap F.Resource) :
    List (Call F) → KeyMap F.Resource → Prop
  | start : Served initial [] initial
  | call {calls : List (Call F)} {resources : KeyMap F.Resource} {call : Call F}
      (hBefore : Served initial calls resources) (hFits : call.Fits resources) :
      Served initial (calls ++ [call]) (call.write resources)

/-- What clients request and what they are answered makes up the calls in the log, and these fit the
contents one after another. -/
theorem Served.handleAll {initial : KeyMap F.Resource} {calls : List (Call F)} {remote : Remote F}
    (hServed : Served initial calls remote.resources) (requests : List (Request F)) :
    (remote.handleAll requests).2.log =
        remote.log ++ callsOf requests (remote.handleAll requests).1 ∧
      Served initial (calls ++ callsOf requests (remote.handleAll requests).1)
        (remote.handleAll requests).2.resources := by
  induction requests generalizing remote calls with
  | nil => simpa [Remote.handleAll, callsOf] using hServed
  | cons request rest ih =>
      simp only [Remote.handleAll]
      rw [callsOf_cons]
      rcases @Remote.handle_call F remote request with
        ⟨hNone, hSame, hKept⟩ | ⟨call, hCall, hMade, hFits, hWritten⟩
      · rw [hNone, ← hSame]
        exact ih (hKept ▸ hServed)
      · have hNext : Served initial (calls ++ [call]) (remote.handle request).2.resources :=
          hWritten ▸ hServed.call hFits
        have hRest := ih hNext
        rw [hMade, List.append_assoc, List.append_assoc] at hRest
        rw [hCall]
        exact hRest

variable {initial resources : KeyMap F.Resource} {calls : List (Call F)} {call : Call F}
  {key : String}

/-- Resources stay under their own keys. -/
theorem Served.own (hLawful : F.Lawful) (hServed : Served initial calls resources)
    (hOwn : ∀ key resource, initial.get? key = some resource → F.key resource = key) :
    ∀ key resource, resources.get? key = some resource → F.key resource = key := by
  induction hServed with
  | start => exact hOwn
  | @call calls resources call hBefore hFits ih =>
      intro key resource hGet
      unfold Call.write at hGet
      split at hGet
      · rename_i draft created
        obtain ⟨-, id, -, -, rfl⟩ := hFits
        rw [KeyMap.get?_insert] at hGet
        split at hGet
        · rename_i hKey
          cases hGet
          rw [hLawful.key_materialize, hKey]
        · exact ih key resource hGet
      · rename_i old actions updated
        obtain ⟨stored, hStored, -, rfl⟩ := hFits
        rw [KeyMap.get?_insert] at hGet
        split at hGet
        · rename_i hKey
          cases hGet
          rw [hLawful.key_apply, ih _ _ hStored, hKey]
        · exact ih key resource hGet
      · exact ih key resource hGet

/-- A resource is created from a draft of its key. -/
theorem Served.of_created (hServed : Served initial calls resources) {resource : F.Resource}
    (hCreated : resource ∈ calls.filterMap (Call.created? key)) :
    ∃ draft id, F.draftKey draft = some key ∧ resource = F.materialize draft id := by
  induction hServed with
  | start => exact absurd hCreated List.not_mem_nil
  | @call calls resources call hBefore hFits ih =>
      rw [List.filterMap_append] at hCreated
      rcases List.mem_append.mp hCreated with hEarlier | hLast
      · exact ih hEarlier
      · obtain ⟨made, hMade, hRead⟩ := List.mem_filterMap.mp hLast
        cases List.mem_singleton.mp hMade
        unfold Call.created? at hRead
        split at hRead
        · rename_i draft created
          split at hRead
          · rename_i hKey
            cases hRead
            obtain ⟨found, id, hSet, -, rfl⟩ := hFits
            refine ⟨draft, id, ?_, rfl⟩
            rw [hKey, Family.keyOf_of_draftKey hSet, hSet]
          · cases hRead
        · cases hRead

/-! ## What calls did to a key -/

/-- What calls did to a key. Either nothing was ever there, or there is one first resource, and what
is stored is this one after all successful updates, submitted in the versions that follow each
other. -/
inductive Recounts (initial : KeyMap F.Resource) (calls : List (Call F))
    (current : Option F.Resource) (key : String) : Prop
  | absent (hCurrent : current = none) (hOrigins : origins initial calls key = [])
      (hUpdates : updatesOf calls key = [])
  | stored (base : F.Resource)
      (hCurrent : current = some (F.applyAll base (updatesOf calls key)))
      (hOrigins : origins initial calls key = [base])
      (hVersions : (updatesOf calls key).map (·.1) =
        (List.range (updatesOf calls key).length).map fun count =>
          F.version base + UInt64.ofNat count)

theorem origins_append : origins initial (calls ++ [call]) key =
    origins initial calls key ++ (call.created? key).toList := by
  rw [origins, List.filterMap_append, ← List.append_assoc]
  cases hCreated : call.created? key <;> simp [origins, hCreated]

theorem updatesOf_append : updatesOf (calls ++ [call]) key =
    updatesOf calls key ++ (call.updated? key).toList := by
  rw [updatesOf, List.filterMap_append]
  cases hUpdated : call.updated? key <;> simp [updatesOf, hUpdated]

/-- A call that neither creates nor updates the resource of a key changes nothing for it. -/
theorem Recounts.other {current : Option F.Resource}
    (hRecounts : Recounts initial calls current key)
    (hCreated : call.created? key = none) (hUpdated : call.updated? key = none) :
    Recounts initial (calls ++ [call]) current key := by
  have hOrigins : origins initial (calls ++ [call]) key = origins initial calls key := by
    rw [origins_append, hCreated]
    exact List.append_nil _
  have hUpdates : updatesOf (calls ++ [call]) key = updatesOf calls key := by
    rw [updatesOf_append, hUpdated]
    exact List.append_nil _
  rcases hRecounts with ⟨hCurrent, hNone, hNever⟩ | ⟨base, hCurrent, hOne, hVersions⟩
  · exact .absent hCurrent (hOrigins.trans hNone) (hUpdates.trans hNever)
  · rw [← hUpdates] at hCurrent hVersions
    exact .stored base hCurrent (hOrigins.trans hOne) hVersions

/-- A resource is created only where nothing was ever there. -/
theorem Recounts.created {draft : F.Draft} {resource : F.Resource}
    (hRecounts : Recounts initial calls none (F.keyOf draft)) :
    Recounts initial (calls ++ [.create draft (.ok (some resource))]) (some resource)
      (F.keyOf draft) := by
  obtain ⟨-, hNone, hNever⟩ | ⟨base, hCurrent, -, -⟩ := hRecounts
  · have hUpdates : updatesOf (calls ++ [.create draft (.ok (some resource))])
        (F.keyOf draft) = [] := by
      rw [updatesOf_append, hNever]
      rfl
    refine .stored resource ?_ ?_ ?_
    · rw [hUpdates]
      rfl
    · rw [origins_append, hNone]
      simp [Call.created?]
    · rw [hUpdates]
      rfl
  · cases hCurrent

/-- An update succeeds only in the version that the updates before it left. -/
theorem Recounts.updated (hAdvances : F.Advances) {old stored : F.Resource}
    {actions : List F.Action} {answer : F.Resource}
    (hRecounts : Recounts initial calls (some stored) (F.key old))
    (hVersion : F.version stored = F.version old) (hAnswer : answer = F.apply stored actions) :
    Recounts initial (calls ++ [.update old actions (.ok answer)]) (some answer) (F.key old) := by
  obtain ⟨hCurrent, -, -⟩ | ⟨base, hCurrent, hOne, hVersions⟩ := hRecounts
  · cases hCurrent
  · have hUpdates : updatesOf (calls ++ [.update old actions (.ok answer)]) (F.key old) =
        updatesOf calls (F.key old) ++ [(F.version old, actions)] := by
      rw [updatesOf_append]
      simp [Call.updated?]
    refine .stored base ?_ ?_ ?_
    · rw [hUpdates, Family.applyAll, List.foldl_concat, hAnswer, Option.some.inj hCurrent]
      rfl
    · rw [origins_append, hOne]
      rfl
    · rw [hUpdates, List.map_append, hVersions, List.length_append, List.length_singleton,
        List.range_succ, List.map_append, ← hVersion, Option.some.inj hCurrent,
        hAdvances.version_applyAll]
      rfl

/-- Whatever calls a service makes, they recount what is stored under a key. -/
theorem Served.recounts (hAdvances : F.Advances) (hServed : Served initial calls resources)
    (key : String) : Recounts initial calls (resources.get? key) key := by
  induction hServed with
  | start =>
      cases hInitial : initial.get? key with
      | none => exact .absent rfl (by simp [origins, hInitial]) rfl
      | some base => exact .stored base rfl (by simp [origins, hInitial]) rfl
  | @call calls resources call hBefore hFits ih =>
      by_cases hFruitful : call.isFruitful = true
      · unfold Call.isFruitful at hFruitful
        split at hFruitful
        · rename_i draft resource
          show Recounts initial _ ((resources.insert (F.keyOf draft) resource).get? key) key
          by_cases hKey : key = F.keyOf draft
          · obtain ⟨found, id, hSet, hFresh, -⟩ := hFits
            have hNone : resources.get? (F.keyOf draft) = none := by
              rw [Family.keyOf_of_draftKey hSet]
              exact KeyMap.get?_eq_none hFresh
            subst hKey
            rw [KeyMap.get?_insert_self]
            rw [hNone] at ih
            exact ih.created
          · rw [KeyMap.get?_insert_ne hKey]
            exact ih.other (if_neg hKey) rfl
        · rename_i old actions answer
          show Recounts initial _ ((resources.insert (F.key old) answer).get? key) key
          by_cases hKey : key = F.key old
          · obtain ⟨stored, hStored, hVersion, hAnswer⟩ := hFits
            subst hKey
            rw [KeyMap.get?_insert_self]
            rw [hStored] at ih
            exact ih.updated hAdvances hVersion hAnswer
          · rw [KeyMap.get?_insert_ne hKey]
            exact ih.other rfl (if_neg hKey)
        · cases hFruitful
      · rw [Call.write_of_not_fruitful hFruitful]
        exact ih.other (Call.created?_of_not_fruitful hFruitful)
          (Call.updated?_of_not_fruitful hFruitful)

/-! ## Requests of clients -/

/-- What serving a request among others does: it gets its reply, the log shows the call that it made
and no other, and nothing is written unless the reply holds what was created or updated. -/
theorem Remote.handleAll_split {remote : Remote F} {front back : List (Request F)}
    {request : Request F} :
    ∃ reply, (remote.handleAll (front ++ request :: back)).1[front.length]? = some reply ∧
      (request.call? reply).isSome = request.isCall ∧
      (remote.handleAll (front ++ [request])).2.log =
        (remote.handleAll front).2.log ++ (request.call? reply).toList ∧
      (reply.isFruitful = false → (remote.handleAll (front ++ [request])).2.resources =
        (remote.handleAll front).2.resources) := by
  have hReply : (remote.handleAll (front ++ request :: back)).1[front.length]? =
      some ((remote.handleAll front).2.handle request).1 := by
    rw [handleAll_append, List.getElem?_append_right (Nat.le_of_eq length_handleAll),
      length_handleAll, Nat.sub_self]
    rfl
  have hAfter : (remote.handleAll (front ++ [request])).2 =
      ((remote.handleAll front).2.handle request).2 := by
    rw [handleAll_append]
    rfl
  refine ⟨_, hReply, Request.isSome_call?, ?_, fun hVain => ?_⟩
  · rw [hAfter]
    rcases @handle_call F (remote.handleAll front).2 request with
      ⟨hNone, hSame, -⟩ | ⟨call, hCall, hMade, -, -⟩
    · rw [hNone, hSame]
      exact (List.append_nil _).symm
    · rw [hCall, hMade]
      rfl
  · rw [hAfter]
    rcases @handle_call F (remote.handleAll front).2 request with
      ⟨-, -, hKept⟩ | ⟨call, hCall, -, -, hWritten⟩
    · exact hKept
    · rw [← Call.isFruitful_of_call? hCall] at hVain
      rw [hWritten, Call.write_of_not_fruitful (Bool.eq_false_iff.mp hVain)]

/--
No update is lost. Whatever clients request of a service, and whatever is scripted for it, each of
them gets a reply, and the log shows the calls with these replies and no others. Every resource
stays under its own key, and a request that is answered a fault or no resource changes nothing.

Under each key there never was anything, or what is stored is one first resource, found there or
created from a draft of the key, after exactly the updates of the key whose clients were answered
that they succeeded, in the order of their calls. Below the bound of the versions, its version has
grown by their number, and no two of them were submitted in the same version.
-/
theorem Remote.loses_no_update {name : String} (hFamily : Family.named? name = some F)
    (remote : Remote F)
    (hOwn : ∀ key resource, remote.resources.get? key = some resource → F.key resource = key)
    (requests : List (Request F)) :
    let served := remote.handleAll requests
    let calls := callsOf requests served.1
    served.2.log = remote.log ++ calls ∧
      (∀ key resource, served.2.resources.get? key = some resource → F.key resource = key) ∧
      (∀ key, ∀ resource ∈ calls.filterMap (Call.created? key), ∃ draft id,
        F.draftKey draft = some key ∧ resource = F.materialize draft id) ∧
      (∀ key,
        (served.2.resources.get? key = none ∧
          origins remote.resources calls key = [] ∧ updatesOf calls key = []) ∨
        ∃ base stored, origins remote.resources calls key = [base] ∧
          served.2.resources.get? key = some stored ∧
          stored = F.applyAll base (updatesOf calls key) ∧
          ((F.version base).toNat + (updatesOf calls key).length < 2 ^ 64 →
            (F.version stored).toNat =
                (F.version base).toNat + (updatesOf calls key).length ∧
              ((updatesOf calls key).map (·.1)).Nodup)) ∧
      served.1.length = requests.length ∧
      ∀ front request back, requests = front ++ request :: back →
        ∃ reply, served.1[front.length]? = some reply ∧
          (request.call? reply).isSome = request.isCall ∧
          (remote.handleAll (front ++ [request])).2.log =
            (remote.handleAll front).2.log ++ (request.call? reply).toList ∧
          (reply.isFruitful = false → (remote.handleAll (front ++ [request])).2.resources =
            (remote.handleAll front).2.resources) := by
  intro served calls
  have hLawful := Family.lawful_of_named hFamily
  obtain ⟨hLog, hServed⟩ := @Served.handleAll F remote.resources [] remote .start requests
  rw [List.nil_append] at hServed
  refine ⟨hLog, hServed.own hLawful hOwn, fun key resource => hServed.of_created, fun key => ?_,
    length_handleAll, fun front request back hSplit => ?_⟩
  · rcases hServed.recounts hLawful.toAdvances key with
      ⟨hNone, hOrigins, hUpdates⟩ | ⟨base, hStored, hOrigins, hVersions⟩
    · exact Or.inl ⟨hNone, hOrigins, hUpdates⟩
    · refine Or.inr ⟨base, _, hOrigins, hStored, rfl, fun hRoom => ⟨?_, ?_⟩⟩
      · rw [hLawful.version_applyAll]
        exact toNat_add_ofNat (Nat.le_refl _) hRoom
      · rw [hVersions]
        exact nodup_versions hRoom
  · subst hSplit
    exact handleAll_split

theorem Remote.loses_no_update_shoes :
    let names : LocalizedText := ⟨KeyMap.empty⟩
    let draft := Category.Draft.basic "shoes" names names
    let first := Category.ofDraft draft "0"
    let requests : List (Request Family.category) :=
      [ .create draft
      , .update first [.changeName (.of "en" "Shoes")]
      , .update first [.changeName (.of "en" "Boots")]
      , .failUpdate (.other "down")
      , .update (first.apply []) [.changeName (.of "en" "Boots")] ]
    let remote : Remote Family.category := { ids := toString }
    let served := remote.handleAll requests
    let calls := callsOf requests served.1
    Family.named? "category" = some Family.category ∧
      (∀ key resource, remote.resources.get? key = some resource → resource.key = key) ∧
      served.2.log = calls ∧ origins remote.resources calls "shoes" = [first] ∧
      updatesOf calls "shoes" = [(first.version, [.changeName (.of "en" "Shoes")])] ∧
      ∃ stored, served.2.resources.get? "shoes" = some stored ∧
        stored = Family.category.applyAll first (updatesOf calls "shoes") ∧
        stored.version.toNat = first.version.toNat + 1 ∧
        ((updatesOf calls "shoes").map (·.1)).Nodup := by
  intro names draft first requests remote served calls
  have hFamily : Family.named? "category" = some Family.category := rfl
  have hOwn : ∀ key resource, remote.resources.get? key = some resource →
      resource.key = key := by
    intro key resource hGet
    cases hGet
  obtain ⟨hLog, -, -, hAll, -, -⟩ := loses_no_update hFamily remote hOwn requests
  have hOrigins : origins remote.resources calls "shoes" = [first] := by decide +kernel
  have hUpdates : updatesOf calls "shoes" =
      [(first.version, [.changeName (.of "en" "Shoes")])] := by decide +kernel
  refine ⟨hFamily, hOwn, hLog, hOrigins, hUpdates, ?_⟩
  rcases hAll "shoes" with ⟨-, hNone, -⟩ | ⟨base, stored, hBase, hStored, hAfter, hVersions⟩
  · cases hOrigins.symm.trans hNone
  · have hFirst : base = first := (List.singleton_inj.mp (hOrigins.symm.trans hBase)).symm
    subst hFirst
    have hRoom : first.version.toNat + (updatesOf calls "shoes").length < 2 ^ 64 := by
      rw [hUpdates]
      decide
    obtain ⟨hGrown, hApart⟩ := hVersions hRoom
    have hOne : (updatesOf calls "shoes").length = 1 := congrArg List.length hUpdates
    exact ⟨stored, hStored, hAfter, hGrown.trans (congrArg (first.version.toNat + ·) hOne), hApart⟩

end CatalogSync
