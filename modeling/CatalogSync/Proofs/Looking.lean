import CatalogSync.Catalog.Families
import CatalogSync.Proofs.Handling
import CatalogSync.Proofs.Rounds
import CatalogSync.Sync.Course

/-!
# Looking up before writing

An engine looks resources up for the drafts of a chunk together: for those of a batch that are left
after the screening and the parking, and for those that a round releases, cut into batches again. A
`Trail` tells a run chunk by chunk, with nothing in between that looks resources up by their keys or
writes one. The look-ups are read off from it, one for each chunk, and so is the chunk that a call
belongs to if it writes.

Hooks and resolvers could look up and write on their own. An engine is `Reserved` when they do not.

## Main results

* `Desk.syncBatch_attends`: after the look-up of a chunk nothing is written but for its drafts.
* `Engine.follow_chunked`: every run is told by a trail.
* `Engine.lookups_bounded`: no look-up asks for more keys than a batch has drafts, and nothing is
  written whose draft was not looked up with its chunk.
-/

namespace CatalogSync

/-! ## Lists that grow item by item -/

/-- One list is the other with items added one by one, each of which fits behind the list before it.
-/
inductive Grows {α : Type} (fits : List α → α → Prop) (before : List α) : List α → Prop where
  | refl : Grows fits before before
  | snoc {list : List α} {item : α} (hGrows : Grows fits before list) (hFits : fits list item) :
      Grows fits before (list ++ [item])

namespace Grows

variable {α : Type} {fits : List α → α → Prop} {before middle after : List α}

theorem trans (hFirst : Grows fits before middle) (hLast : Grows fits middle after) :
    Grows fits before after := by
  induction hLast with
  | refl => exact hFirst
  | snoc _ hFits ih => exact ih.snoc hFits

theorem mono {other : List α → α → Prop} (hGrows : Grows fits before after)
    (hWeaker : ∀ list item, fits list item → other list item) : Grows other before after := by
  induction hGrows with
  | refl => exact .refl
  | snoc _ hFits ih => exact ih.snoc (hWeaker _ _ hFits)

/-- Items that fit anywhere may be added together. -/
theorem of_appends {test : α → Bool} (hAppends : Appends test before after)
    (hFits : ∀ list item, test item = true → fits list item) : Grows fits before after := by
  obtain ⟨added, rfl, hAdded⟩ := hAppends
  induction added generalizing before with
  | nil =>
      rw [List.append_nil]
      exact .refl
  | cons item rest ih =>
      have hFirst : Grows fits before (before ++ [item]) :=
        .snoc .refl (hFits before item (hAdded item (List.mem_cons_self ..)))
      have hRest : Grows fits (before ++ [item]) (before ++ [item] ++ rest) :=
        ih fun other hOther => hAdded other (List.mem_cons_of_mem _ hOther)
      rw [List.append_assoc, List.singleton_append] at hRest
      exact hFirst.trans hRest

theorem appends {test : α → Bool} (hGrows : Grows fits before after)
    (hFits : ∀ list item, fits list item → test item = true) : Appends test before after := by
  induction hGrows with
  | refl => exact .refl
  | snoc _ hLast ih => exact ih.trans (.single (hFits _ _ hLast))

/-- Where each item stands, the list began as it did and all since passes the test. -/
theorem since {test : α → Bool} (hGrows : Grows fits before after)
    (hFits : ∀ list item, fits list item → test item = true) :
    Grows (fun list item => Appends test before list ∧ fits list item) before after := by
  induction hGrows with
  | refl => exact .refl
  | snoc hEarlier hLast ih => exact ih.snoc ⟨hEarlier.appends hFits, hLast⟩

/-- An added item fits where it stands. -/
theorem fits_of_added (hGrows : Grows fits before after) {earlier later : List α} {item : α}
    (hAfter : after = before ++ earlier ++ item :: later) : fits (before ++ earlier) item := by
  induction hGrows generalizing later with
  | refl =>
      have hLength := congrArg List.length hAfter
      simp at hLength
  | snoc _ hLast ih =>
      -- The item is the last one that was added, or it was there before that one.
      rcases List.eq_nil_or_concat later with rfl | ⟨front, last, rfl⟩
      · obtain ⟨rfl, hItem⟩ := List.append_inj' hAfter rfl
        cases hItem
        exact hLast
      · rw [List.concat_eq_append, ← List.cons_append, ← List.append_assoc] at hAfter
        exact ih (List.append_inj' hAfter rfl).1

end Grows

theorem Appends.subset {α : Type} {test : α → Bool} {before after : List α}
    (hAppends : Appends test before after) : before ⊆ after := by
  obtain ⟨added, rfl, -⟩ := hAppends
  exact List.subset_append_left ..

variable {F : Family} {σ : Type}

/-! ## Calls and whom they are made for -/

namespace Call

/-- Whether a call looks resources up by their keys. -/
def isLookup : Call F → Bool
  | .lookup .. => true
  | _ => false

/-- Whether a call neither looks resources up by their keys nor writes one. -/
def isAside : Call F → Bool
  | .fetch .. | .resolve .. => true
  | _ => false

theorem of_isAside {call : Call F} (hAside : call.isAside = true) :
    call.isLookup = false ∧ call.isQuery = true := by
  cases call with
  | fetch | resolve => exact ⟨rfl, rfl⟩
  | _ => cases hAside

/-- Whether a call is what becomes of a draft: its creation, as the hook left it, or an update with
what the hook made of the difference. -/
def isFor (options : Options F σ) (draft : F.Draft) : Call F → Prop
  | .create kept _ => ∃ asked : Desk F σ, (asked.askBeforeCreate options draft).1 = some kept
  | .update old actions _ => ∃ (asked : Desk F σ) (proposed : List F.Action),
      F.diff old draft = .ok proposed ∧
        (asked.askBeforeUpdate options draft old proposed).1 = actions
  | _ => False

/-- What is created for a draft has its key, if the hook keeps keys. -/
theorem keyOf_of_isFor {options : Options F σ} (hKeeps : options.KeepsKeys) {draft kept : F.Draft}
    {answer : Except RemoteFault (Option F.Resource)}
    (hFor : (Call.create kept answer).isFor options draft) : F.keyOf kept = F.keyOf draft := by
  obtain ⟨asked, hKept⟩ := hFor
  exact Desk.keyOf_askBeforeCreate hKeeps hKept

end Call

/-- Hooks look nothing up by keys and write nothing; whatever else they reach they may change. -/
structure Options.Reserved (options : Options F σ) : Prop where
  beforeCreate : ∀ hook, options.beforeCreate = some hook → ∀ world draft,
    Appends Call.isAside world.remote.log (hook world draft).2.remote.log
  beforeUpdate : ∀ hook, options.beforeUpdate = some hook → ∀ world draft old actions,
    Appends Call.isAside world.remote.log (hook world draft old actions).2.remote.log

/-- Hooks that leave the remote alone look nothing up and write nothing. -/
theorem Options.SparesRemote.reserved {options : Options F σ} (hSpares : options.SparesRemote) :
    options.Reserved where
  beforeCreate hook hHook world draft := hSpares.beforeCreate hook hHook world draft ▸ .refl
  beforeUpdate hook hHook world draft old actions :=
    hSpares.beforeUpdate hook hHook world draft old actions ▸ .refl

/-- Only the engine itself looks resources up by their keys and writes them. -/
structure Engine.Reserved (engine : Engine F σ) : Prop where
  options : engine.options.Reserved
  resolver : ∀ resolver, engine.resolver = some resolver → ∀ world keys,
    Appends Call.isAside world.remote.log (resolver world keys).2.remote.log

namespace Desk

variable {options : Options F σ} {draft : F.Draft} {desk before middle after : Desk F σ}

/-! ## What happens between chunks -/

/-- A desk after steps that looked nothing up by keys and wrote nothing. -/
structure Aside (before after : Desk F σ) : Prop where
  journal : before.journal ⊆ after.journal
  log : Appends Call.isAside before.world.remote.log after.world.remote.log

theorem Aside.refl : Aside desk desk := ⟨List.Subset.refl _, .refl⟩

theorem Aside.trans (hFirst : Aside before middle) (hLast : Aside middle after) :
    Aside before after :=
  ⟨List.Subset.trans hFirst.journal hLast.journal, hFirst.log.trans hLast.log⟩

/-- Idle steps that leave the remote alone. -/
theorem Aside.of_idle (hIdle : Idle before after)
    (hRemote : after.world.remote = before.world.remote) : Aside before after :=
  ⟨hIdle.journal.subset, hRemote ▸ .refl⟩

theorem enter_aside {event : Event F} : Aside desk (desk.enter event) :=
  ⟨List.subset_append_left .., .refl⟩

theorem failMany_aside {message : String} {cause : Cause} {count : Nat} :
    Aside desk (desk.failMany options message cause count) :=
  .of_idle failMany_idle (congrArg World.remote failMany_world)

theorem screen_aside {drafts : List (Option F.Draft)} :
    Aside desk (screen options desk drafts).2 :=
  .of_idle screen_idle (congrArg World.remote screen_world)

theorem askBeforeCreate_aside (hReserved : options.Reserved) :
    Aside desk (desk.askBeforeCreate options draft).2 := by
  unfold askBeforeCreate
  split
  · exact .refl
  · rename_i hook hHook
    exact ⟨List.subset_append_left .., hReserved.beforeCreate hook hHook desk.world draft⟩

theorem askBeforeUpdate_aside (hReserved : options.Reserved) {old : F.Resource}
    {actions : List F.Action} :
    Aside desk (desk.askBeforeUpdate options draft old actions).2 := by
  unfold askBeforeUpdate
  split
  · exact .refl
  · rename_i hook hHook
    exact ⟨List.subset_append_left ..,
      hReserved.beforeUpdate hook hHook desk.world draft old actions⟩

/-! ## What happens within a chunk -/

/-- A call is made at a moment, told by the log, on behalf of one of the known drafts. -/
def Submits (options : Options F σ) (known : F.Draft → Prop) (journal : List (Event F))
    (moment : List (Call F)) (call : Call F) : Prop :=
  ∃ draft remote, known draft ∧ call.isFor options draft ∧
    Event.submitting draft remote ∈ journal ∧ remote.log = moment

/-- A desk after steps that looked nothing up by keys and wrote only on behalf of known drafts. -/
structure Attends (options : Options F σ) (known : F.Draft → Prop) (before after : Desk F σ) :
    Prop where
  journal : before.journal ⊆ after.journal
  log : Grows (fun moment call => call.isLookup = false ∧
      (call.isQuery = false → Submits options known after.journal moment call))
    before.world.remote.log after.world.remote.log

variable {known : F.Draft → Prop}

theorem Submits.mono {journal later : List (Event F)} {moment : List (Call F)} {call : Call F}
    (hSubmits : Submits options known journal moment call) (hJournal : journal ⊆ later) :
    Submits options known later moment call := by
  obtain ⟨draft, remote, hKnown, hFor, hEvent, hMoment⟩ := hSubmits
  exact ⟨draft, remote, hKnown, hFor, hJournal hEvent, hMoment⟩

theorem Attends.trans (hFirst : Attends options known before middle)
    (hLast : Attends options known middle after) : Attends options known before after := by
  refine ⟨List.Subset.trans hFirst.journal hLast.journal, .trans (hFirst.log.mono ?_) hLast.log⟩
  exact fun moment call hCall =>
    ⟨hCall.1, fun hWrite => (hCall.2 hWrite).mono hLast.journal⟩

theorem Aside.attends (hAside : Aside before after) : Attends options known before after := by
  refine ⟨hAside.journal, .of_appends hAside.log fun moment call hCall => ?_⟩
  obtain ⟨hLookup, hQuery⟩ := Call.of_isAside hCall
  exact ⟨hLookup, fun hWrite => absurd (hWrite.symm.trans hQuery) Bool.false_ne_true⟩

/-- Nothing is looked up by keys, at any moment in between and in the end. -/
theorem Attends.since (hAttends : Attends options known before after) :
    Appends (fun call => !call.isLookup) before.world.remote.log after.world.remote.log ∧
      Grows (fun moment call =>
          Appends (fun call => !call.isLookup) before.world.remote.log moment ∧
            (call.isQuery = false → Submits options known after.journal moment call))
        before.world.remote.log after.world.remote.log := by
  have hLookup : ∀ (moment : List (Call F)) (call : Call F), call.isLookup = false ∧
      (call.isQuery = false → Submits options known after.journal moment call) →
        (!call.isLookup) = true := fun _ _ hCall => by rw [hCall.1]; rfl
  exact ⟨hAttends.log.appends hLookup,
    (hAttends.log.since hLookup).mono fun _ _ hCall => ⟨hCall.1, hCall.2.2⟩⟩

/-- One call is made on behalf of a known draft. -/
theorem Attends.of_submission {call : Call F} (hKnown : known draft)
    (hFor : call.isFor options draft) (hLookup : call.isLookup = false)
    (hJournal : after.journal = before.journal ++ [.submitting draft before.world.remote])
    (hLog : after.world.remote.log = before.world.remote.log ++ [call]) :
    Attends options known before after := by
  refine ⟨hJournal ▸ List.subset_append_left .., ?_⟩
  rw [hLog, hJournal]
  have hEvent : Event.submitting draft before.world.remote ∈
      before.journal ++ [.submitting draft before.world.remote] :=
    List.mem_append_right _ (List.mem_singleton_self _)
  exact .snoc .refl ⟨hLookup, fun _ => ⟨draft, before.world.remote, hKnown, hFor, hEvent, rfl⟩⟩

/-- Whatever is done for a known draft, nothing is looked up by keys or written for another. -/
theorem attends_lasting (hReserved : options.Reserved) (hKnown : known draft) :
    Lasting options draft (Attends options known before) where
  report _ hBefore := hBefore.trans enter_aside.attends
  beforeCreate hBefore := hBefore.trans (askBeforeCreate_aside hReserved).attends
  beforeUpdate hBefore := hBefore.trans (askBeforeUpdate_aside hReserved).attends
  creation {earlier kept} asked hKept hBefore := by
    have hFor : (earlier.world.remote.creation kept).isFor options draft := ⟨asked, hKept⟩
    exact hBefore.trans (.of_submission hKnown hFor rfl rfl rfl)
  change {earlier old proposed actions} asked hDiff hActions hBefore := by
    have hFor : (earlier.world.remote.change old actions).isFor options draft :=
      ⟨asked, proposed, hDiff, hActions⟩
    exact hBefore.trans (.of_submission hKnown hFor rfl rfl rfl)
  fetch _ hBefore := by
    refine hBefore.trans (Aside.attends ⟨List.Subset.refl _, ?_⟩)
    exact .single rfl

theorem close_aside {phase : Phase} : Aside desk (desk.close draft phase) :=
  ⟨List.subset_append_left .., .refl⟩

/-- After the look-up of a chunk nothing is looked up by keys, and nothing is written but on behalf
of its drafts. -/
theorem syncBatch_attends (desk : Desk F σ) {drafts : List F.Draft}
    (hReserved : options.Reserved) (hSome : drafts ≠ []) :
    Attends options (· ∈ drafts) (desk.lookup (F.keysOf drafts)).2
      (desk.syncBatch options drafts).2 := by
  unfold syncBatch
  rw [if_neg (by simpa using hSome)]
  simp only
  split
  · exact Lasting.processAll (fun draft hDraft => attends_lasting hReserved hDraft)
      (fun _ _ _ _ hBefore => hBefore.trans close_aside.attends) Aside.refl.attends
  · exact failMany_aside.attends

end Desk

/-! ## Chunks -/

/-- Drafts that are synced together, and the desk at which that begins. -/
structure Chunk (F : Family) (σ : Type) where
  desk : Desk F σ
  drafts : List F.Draft

namespace Chunk

variable {options : Options F σ} {chunk : Chunk F σ} {journal later : List (Event F)}
  {moment : List (Call F)} {call : Call F}

/-- The keys that are looked up for a chunk. -/
def keys (chunk : Chunk F σ) : KeySet := F.keysOf chunk.drafts

/-- A moment lies in a chunk: its look-up has been made, and no other one since. -/
def Spans (chunk : Chunk F σ) (moment : List (Call F)) : Prop :=
  ∃ answer, Appends (fun call => !call.isLookup)
    (chunk.desk.world.remote.log ++ [.lookup chunk.keys answer]) moment

/-- A call is made on behalf of a draft of a chunk, within the chunk. -/
structure Covers (options : Options F σ) (journal : List (Event F)) (moment : List (Call F))
    (call : Call F) (chunk : Chunk F σ) : Prop where
  spans : chunk.Spans moment
  submits : Desk.Submits options (· ∈ chunk.drafts) journal moment call

theorem Covers.mono (hCovers : Covers options journal moment call chunk)
    (hJournal : journal ⊆ later) : Covers options later moment call chunk :=
  ⟨hCovers.spans, hCovers.submits.mono hJournal⟩

/-- The key of each draft is looked up. -/
theorem keyOf_mem_keys {draft : F.Draft} (hDraft : draft ∈ chunk.drafts) :
    F.keyOf draft ∈ chunk.keys := KeySet.mem_ofList.mpr (List.mem_map_of_mem hDraft)

/-- As many keys are looked up as there are drafts, or fewer. -/
theorem size_keys_le : chunk.keys.size ≤ chunk.drafts.length := by
  have hKeys : chunk.keys.size ≤ (chunk.drafts.map F.keyOf).length := KeySet.size_ofList_le
  rwa [List.length_map] at hKeys

theorem not_isEmpty_keys (hSome : chunk.drafts ≠ []) : ¬ chunk.keys.isEmpty = true := by
  obtain ⟨draft, hDraft⟩ := List.exists_mem_of_ne_nil _ hSome
  exact fun hEmpty => KeySet.isEmpty_iff.mp hEmpty _ (keyOf_mem_keys hDraft)

end Chunk

theorem Remote.lookups_of_appends {test : Call F → Bool} {before after : Remote F}
    (hLog : Appends test before.log after.log)
    (hTest : ∀ call, test call = true → call.isLookup = false) :
    after.lookups = before.lookups := by
  refine hLog.filterMap_eq fun call hCall => ?_
  have hLookup := hTest call hCall
  cases call with
  | lookup => cases hLookup
  | _ => rfl

namespace Desk

variable {options : Options F σ} {desk : Desk F σ} {drafts : List F.Draft}

/-- A chunk makes one look-up, for the keys of its drafts. -/
theorem syncBatch_lookups (hReserved : options.Reserved) (hSome : drafts ≠ []) :
    (desk.syncBatch options drafts).2.world.remote.lookups =
      desk.world.remote.lookups ++ [F.keysOf drafts] := by
  have hSince := (syncBatch_attends desk hReserved hSome).since.1
  have hLooked : (desk.lookup (F.keysOf drafts)).2.world.remote.lookups =
      desk.world.remote.lookups ++ [F.keysOf drafts] := List.filterMap_append
  rw [Remote.lookups_of_appends hSince fun call hCall => by simpa using hCall, hLooked]

/-- Whatever is written in a chunk is written on behalf of one of its drafts, after the look-up. -/
theorem syncBatch_covers (hReserved : options.Reserved) (hSome : drafts ≠ []) :
    Grows (fun moment call => call.isQuery = false →
        Chunk.Covers options (desk.syncBatch options drafts).2.journal moment call ⟨desk, drafts⟩)
      desk.world.remote.log (desk.syncBatch options drafts).2.world.remote.log := by
  refine .trans (.snoc .refl fun hWrite => ?_)
    ((syncBatch_attends desk hReserved hSome).since.2.mono fun moment call hCall hWrite => ?_)
  · cases hWrite
  · exact ⟨⟨_, hCall.1⟩, hCall.2 hWrite⟩

end Desk

/-! ## Runs told by their chunks -/

/-- A run told by its chunks, each of which has a draft at least and at most as many as a batch. -/
inductive Trail (options : Options F σ) : Desk F σ → List (Chunk F σ) → Desk F σ → Prop where
  | aside {before after : Desk F σ} (hAside : Desk.Aside before after) :
      Trail options before [] after
  | chunk (desk : Desk F σ) (drafts : List F.Draft) (hSome : drafts ≠ [])
      (hSize : drafts.length ≤ options.batchSize) :
      Trail options desk [⟨desk, drafts⟩] (desk.syncBatch options drafts).2
  | append {before middle after : Desk F σ} {front back : List (Chunk F σ)}
      (hFront : Trail options before front middle) (hBack : Trail options middle back after) :
      Trail options before (front ++ back) after

namespace Trail

variable {options : Options F σ} {before after : Desk F σ} {chunks : List (Chunk F σ)}

theorem lookups (hTrail : Trail options before chunks after) (hReserved : options.Reserved) :
    after.world.remote.lookups = before.world.remote.lookups ++ chunks.map Chunk.keys := by
  induction hTrail with
  | aside hAside =>
      rw [List.map_nil, List.append_nil]
      exact Remote.lookups_of_appends hAside.log fun call hCall => (Call.of_isAside hCall).1
  | chunk desk drafts hSome hSize => exact Desk.syncBatch_lookups hReserved hSome
  | append _ _ ihFront ihBack =>
      rw [ihBack, ihFront, List.map_append, List.append_assoc]

/-- A chunk of a trail is neither empty nor larger than a batch. -/
theorem sizes (hTrail : Trail options before chunks after) :
    ∀ chunk ∈ chunks, chunk.drafts ≠ [] ∧ chunk.drafts.length ≤ options.batchSize := by
  induction hTrail with
  | aside => exact fun _ hChunk => absurd hChunk List.not_mem_nil
  | chunk desk drafts hSome hSize =>
      intro chunk hChunk
      cases List.mem_singleton.mp hChunk
      exact ⟨hSome, hSize⟩
  | append _ _ ihFront ihBack =>
      exact fun chunk hChunk => (List.mem_append.mp hChunk).elim (ihFront chunk) (ihBack chunk)

/-- Nothing is taken out of the journal. -/
theorem journal (hTrail : Trail options before chunks after) (hReserved : options.Reserved) :
    before.journal ⊆ after.journal := by
  induction hTrail with
  | aside hAside => exact hAside.journal
  | chunk desk drafts hSome _ => exact (Desk.syncBatch_attends desk hReserved hSome).journal
  | append _ _ ihFront ihBack => exact List.Subset.trans ihFront ihBack

/-- Whatever is written is written in one of the chunks. -/
theorem covers (hTrail : Trail options before chunks after) (hReserved : options.Reserved) :
    Grows (fun moment call => call.isQuery = false →
        ∃ chunk ∈ chunks, Chunk.Covers options after.journal moment call chunk)
      before.world.remote.log after.world.remote.log := by
  induction hTrail with
  | aside hAside =>
      refine .of_appends hAside.log fun moment call hCall hWrite => ?_
      exact absurd (hWrite.symm.trans (Call.of_isAside hCall).2) Bool.false_ne_true
  | chunk desk drafts hSome _ =>
      refine (Desk.syncBatch_covers hReserved hSome).mono fun moment call hCovers hWrite => ?_
      exact ⟨⟨desk, drafts⟩, List.mem_singleton_self _, hCovers hWrite⟩
  | append _ hBack ihFront ihBack =>
      -- The later chunks leave the entries of the earlier ones in the journal.
      refine .trans (ihFront.mono fun moment call hCovers hWrite => ?_)
        (ihBack.mono fun moment call hCovers hWrite => ?_)
      · obtain ⟨chunk, hChunk, hCovered⟩ := hCovers hWrite
        exact ⟨chunk, List.mem_append_left _ hChunk, hCovered.mono (hBack.journal hReserved)⟩
      · obtain ⟨chunk, hChunk, hCovered⟩ := hCovers hWrite
        exact ⟨chunk, List.mem_append_right _ hChunk, hCovered⟩

end Trail

/-- What was done at a desk can be told chunk by chunk. -/
def Desk.Chunked (options : Options F σ) (before after : Desk F σ) : Prop :=
  ∃ chunks, Trail options before chunks after

namespace Desk

variable {options : Options F σ} {desk before middle after : Desk F σ}

theorem Chunked.trans (hFirst : Chunked options before middle)
    (hLast : Chunked options middle after) : Chunked options before after := by
  obtain ⟨front, hFront⟩ := hFirst
  obtain ⟨back, hBack⟩ := hLast
  exact ⟨front ++ back, .append hFront hBack⟩

theorem Aside.chunked (hAside : Aside before after) : Chunked options before after :=
  ⟨[], .aside hAside⟩

/-- Drafts that are no more than a batch are one chunk, or none. -/
theorem syncBatch_chunked {drafts : List F.Draft} (hSize : drafts.length ≤ options.batchSize) :
    Chunked options desk (desk.syncBatch options drafts).2 := by
  by_cases hSome : drafts = []
  · subst hSome
    exact Aside.refl.chunked
  · exact ⟨_, .chunk desk drafts hSome hSize⟩

/-- Drafts that are cut into batches are synced in chunks. -/
theorem syncBatches_chunked {batches : List (List F.Draft)}
    (hSizes : ∀ batch ∈ batches, batch.length ≤ options.batchSize) :
    Chunked options desk (syncBatches options desk batches).2 := by
  induction batches generalizing desk with
  | nil => exact Aside.refl.chunked
  | cons batch rest ih =>
      have hFirst : Chunked options desk (desk.syncBatch options batch).2 :=
        syncBatch_chunked (hSizes batch (List.mem_cons_self ..))
      exact hFirst.trans (ih fun other hOther => hSizes other (List.mem_cons_of_mem _ hOther))

end Desk

/-! ## Runs of an engine -/

namespace Engine

variable {engine : Engine F σ} {run : Run F σ}

theorem parkIncomplete_aside (engine : Engine F σ) (run : Run F σ) {existing : KeySet}
    {drafts : List F.Draft} :
    Desk.Aside run.desk (engine.parkIncomplete existing run drafts).2.desk := by
  induction drafts generalizing run with
  | nil => exact .refl
  | cons draft rest ih =>
      simp only [parkIncomplete]
      split
      · exact ih run
      · have hParked : Desk.Aside run.desk
            (engine.park run draft ((F.references draft).diff existing)).desk :=
          .of_idle (park_idle engine run draft _) park_remote
        exact hParked.trans (ih _)

/-- Making a batch ready looks nothing up by keys, whatever the resolver answers. -/
theorem ready_aside (hReserved : engine.Reserved) (run : Run F σ) {resolver : Resolver F σ}
    (hResolver : engine.resolver = some resolver) {drafts : List F.Draft} :
    Desk.Aside run.desk (engine.ready resolver run drafts).2.desk := by
  have hAsked : Desk.Aside run.desk
      ((run.desk.enter (.resolving (F.referencesOf drafts))).withWorld
        (resolver run.desk.world (F.referencesOf drafts)).2) :=
    ⟨List.subset_append_left .., hReserved.resolver resolver hResolver run.desk.world _⟩
  simp only [ready]
  split
  · exact .refl
  · split
    · exact hAsked.trans (parkIncomplete_aside engine (run.withDesk _))
    · exact hAsked.trans Desk.failMany_aside

theorem settle_aside (engine : Engine F σ) (run : Run F σ) {outcomes : List (String × Phase)} :
    Desk.Aside run.desk (engine.settle run outcomes).desk :=
  .of_idle (settle_idle engine run outcomes) settle_remote

theorem abandon_aside (engine : Engine F σ) (run : Run F σ) {drafts : KeySet} {cause : Cause} :
    Desk.Aside run.desk (engine.abandon run drafts cause).desk :=
  .of_idle (abandon_idle engine run drafts cause) (congrArg World.remote abandon_world)

/-- One round syncs the drafts that it releases in chunks, or gives them up. -/
theorem releaseRound_chunked {available concerned : KeySet} :
    Desk.Chunked engine.options run.desk
      (engine.releaseRound run available concerned).2.desk := by
  have hFetched : Desk.Aside run.desk
      (run.desk.withShelf (engine.area.fetch run.desk.world.shelf concerned).2) :=
    ⟨List.Subset.refl _, .refl⟩
  simp only [releaseRound]
  split
  · exact (hFetched.trans (abandon_aside engine (roundRun run available _))).chunked
  · rename_i records _
    have hSorted : Desk.Aside run.desk (engine.sortRecords available
        (run.desk.withShelf (engine.area.fetch run.desk.world.shelf concerned).2) records).2 :=
      hFetched.trans (.of_idle sortRecords_idle sortRecords_remote)
    -- What the round releases is cut into batches on its own, however much it is.
    refine Desk.Chunked.trans ?_ (settle_aside engine (roundRun run available _)).chunked
    exact hSorted.chunked.trans (Desk.syncBatches_chunked fun batch hBatch =>
      Options.length_le_of_mem_batches hBatch)

/-- All rounds sync the drafts that they release in chunks. -/
theorem release_chunked (engine : Engine F σ) (run : Run F σ) {available : KeySet} :
    Desk.Chunked engine.options run.desk (engine.release run available).desk :=
  release_induct (P := fun _ later => Desk.Chunked engine.options run.desk later.desk)
    (fun _ _ _ hBefore => hBefore.trans releaseRound_chunked) (fun _ _ _ hBefore => hBefore)
    Desk.Aside.refl.chunked

/-- What is left of a batch is synced in one chunk, and what it releases in others. -/
theorem syncBatch_chunked (hReserved : engine.Reserved) {batch : List (Option F.Draft)}
    (hSize : batch.length ≤ engine.options.batchSize) :
    Desk.Chunked engine.options run.desk (engine.syncBatch run batch).desk := by
  have hScreened : Desk.Chunked engine.options run.desk
      (Desk.screen engine.options run.desk batch).2 := Desk.screen_aside.chunked
  have hPassed : (Desk.screen engine.options run.desk batch).1.length ≤
      engine.options.batchSize := by
    rw [Desk.screen_drafts]
    exact Nat.le_trans (List.length_filterMap_le ..) hSize
  unfold syncBatch
  generalize Desk.screen engine.options run.desk batch = screened at hScreened hPassed ⊢
  split
  · exact hScreened.trans (Desk.syncBatch_chunked hPassed)
  · rename_i resolver hResolver
    have hReady : Desk.Chunked engine.options run.desk
        (engine.ready resolver (run.withDesk screened.2) screened.1).2.desk :=
      hScreened.trans (ready_aside hReserved (run.withDesk _) hResolver).chunked
    have hChosen : (engine.ready resolver (run.withDesk screened.2) screened.1).1.length ≤
        engine.options.batchSize := Nat.le_trans ready_sublist.length_le hPassed
    have hSynced := hReady.trans (Desk.syncBatch_chunked hChosen)
    refine Desk.Chunked.trans ?_ (release_chunked engine _)
    exact hSynced.trans (settle_aside engine (Run.withDesk _ _)).chunked

theorem syncBatches_chunked (hReserved : engine.Reserved) {batches : List (List (Option F.Draft))}
    (hSizes : ∀ batch ∈ batches, batch.length ≤ engine.options.batchSize) :
    Desk.Chunked engine.options run.desk (batches.foldl engine.syncBatch run).desk := by
  induction batches generalizing run with
  | nil => exact Desk.Aside.refl.chunked
  | cons batch rest ih =>
      have hFirst : Desk.Chunked engine.options run.desk (engine.syncBatch run batch).desk :=
        syncBatch_chunked hReserved (hSizes batch (List.mem_cons_self ..))
      exact hFirst.trans (ih fun other hOther => hSizes other (List.mem_cons_of_mem _ hOther))

/-- Every run is told by a trail, whatever is done from outside. -/
theorem follow_chunked (hReserved : engine.Reserved) {errands : List (Errand F)} :
    Desk.Chunked engine.options run.desk (engine.follow run errands).desk := by
  induction errands generalizing run with
  | nil => exact Desk.Aside.refl.chunked
  | cons errand rest ih =>
      refine Desk.Chunked.trans ?_ ih
      rcases @perform_cases F σ engine run errand with hSync | ⟨-, hDone⟩
      · rw [hSync]
        exact syncBatches_chunked hReserved fun batch hBatch =>
          Options.length_le_of_mem_batches hBatch
      · have hScripted : Desk.Aside run.desk
            (run.desk.withWorld (run.desk.world.script errand)) := by
          refine ⟨List.Subset.refl _, ?_⟩
          show Appends _ _ (run.desk.world.script errand).remote.log
          rw [World.script_keeps.2.1]
          exact .refl
        rw [hDone]
        exact hScripted.chunked

/--
Look-ups respect the batch size. For every batch size, zero standing for the default, with and
without a resolver, whatever is handed in and whatever goes wrong, a run is told by chunks with as
many drafts as a batch at most. One look-up is made for each chunk and no other; it asks for one key
at least, and for no more than a batch has drafts. Whatever is created or updated belongs to a chunk:
it is submitted on behalf of one of its drafts, after the look-up of the chunk, which asked for the
key of that draft, and before any other look-up. What is created has that key, unless a hook gave it
another one.
-/
theorem lookups_bounded (options : Options F σ) (size : Nat) (resolver : Option (Resolver F σ))
    (run : Run F σ) (errands : List (Errand F))
    (hReserved : Reserved ⟨options.withBatchSize size, resolver⟩) :
    let engine : Engine F σ := ⟨options.withBatchSize size, resolver⟩
    let after := engine.follow run errands
    ∃ chunks : List (Chunk F σ),
      Trail engine.options run.desk chunks after.desk ∧
      after.desk.world.remote.lookups =
        run.desk.world.remote.lookups ++ chunks.map Chunk.keys ∧
      (∀ chunk ∈ chunks, ¬ chunk.keys.isEmpty = true ∧
        chunk.keys.size ≤ if size = 0 then defaultBatchSize else size) ∧
      ∀ earlier call later,
        after.desk.world.remote.log = run.desk.world.remote.log ++ earlier ++ call :: later →
        call.isQuery = false →
        ∃ chunk ∈ chunks, chunk.Spans (run.desk.world.remote.log ++ earlier) ∧
          ∃ draft ∈ chunk.drafts, F.keyOf draft ∈ chunk.keys ∧
            call.isFor engine.options draft ∧
            (∀ kept answer, engine.options.KeepsKeys → call = .create kept answer →
              F.keyOf kept = F.keyOf draft) ∧
            ∃ remote, .submitting draft remote ∈ after.desk.journal ∧
              remote.log = run.desk.world.remote.log ++ earlier := by
  intro engine after
  obtain ⟨chunks, hTrail⟩ : Desk.Chunked engine.options run.desk after.desk :=
    follow_chunked hReserved
  refine ⟨chunks, hTrail, hTrail.lookups hReserved.options, fun chunk hChunk => ?_,
    fun earlier call later hLog hWrite => ?_⟩
  · obtain ⟨hSome, hSize⟩ := hTrail.sizes chunk hChunk
    have hBatch : chunk.keys.size ≤ engine.options.batchSize :=
      Nat.le_trans Chunk.size_keys_le hSize
    rw [Options.batchSize_withBatchSize] at hBatch
    exact ⟨Chunk.not_isEmpty_keys hSome, hBatch⟩
  · obtain ⟨chunk, hChunk, hSpans, draft, remote, hDraft, hFor, hEvent, hMoment⟩ :=
      (hTrail.covers hReserved.options).fits_of_added hLog hWrite
    refine ⟨chunk, hChunk, hSpans, draft, hDraft, Chunk.keyOf_mem_keys hDraft, hFor, ?_, remote,
      hEvent, hMoment⟩
    rintro kept answer hKeeps rfl
    exact Call.keyOf_of_isFor hKeeps hFor

/-- Three children wait for their parent, which is handed in after them. One look-up is made for the
parent, and two are made for the children that it releases, since a batch has two drafts. -/
theorem lookups_bounded_children :
    let names : LocalizedText := ⟨KeyMap.empty⟩
    let child := fun key => some ((Category.Draft.basic key names names).withParent "parent")
    let errands : List (Errand Family.category) :=
      [ .sync [child "first", child "second", child "third"]
      , .sync [some (Category.Draft.basic "parent" names names)] ]
    let options : Options Family.category Unit := {}
    let engine : Engine Family.category Unit := ⟨options.withBatchSize 2, some World.askRemote⟩
    let run : Run Family.category Unit := Run.start (.bare toString)
    let after := engine.follow run errands
    engine.Reserved ∧ after.desk.world.remote.creates = 4 ∧
      ∃ chunks, Trail engine.options run.desk chunks after.desk ∧
        chunks.map (fun chunk => chunk.keys.toList) =
          [["parent"], ["first", "second"], ["third"]] := by
  intro names child errands options engine run after
  have hHookless : engine.options.Hookless := ⟨rfl, rfl⟩
  have hReserved : engine.Reserved :=
    { options := hHookless.quiet.sparesRemote.reserved
      resolver := fun resolver hResolver world keys => by
        cases hResolver
        exact .single rfl }
  have hCreates : after.desk.world.remote.creates = 4 := by decide +kernel
  have hLookups : after.desk.world.remote.lookups.map KeySet.toList =
      [["parent"], ["first", "second"], ["third"]] := by decide +kernel
  obtain ⟨chunks, hTrail, hKeys, -⟩ :=
    lookups_bounded options 2 (some World.askRemote) run errands hReserved
  refine ⟨hReserved, hCreates, chunks, hTrail, ?_⟩
  rw [← hLookups, hKeys, List.map_append, List.map_map]
  rfl

end Engine

end CatalogSync
