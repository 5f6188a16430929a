import CatalogSync.Proofs.Batches

/-!
# Waiting drafts are backed by records

A draft waits only as long as the staging area holds its record: a record under its key, with a
draft of that key, that misses something the draft refers to. `Area.Backs` says this of a set of
drafts, and every record may have to satisfy a further condition, which is what changes from claim
to claim.

A fetch of backed drafts answers exactly their records, unless a fault meets it; and the records
that still miss something are saved again before a fault can be scripted, so none of them is lost.

## Main results

* `Area.fetch_of_backs`: what a fetch of backed drafts answers.
* `Engine.sortRecords_get?_ne`, `Engine.sortRecords_stored`: what sorting records out writes.
-/

namespace CatalogSync

variable {F : Family} {σ : Type}

/-! ## Records in a staging area -/

namespace Area

variable {area : Area F} {shelf : Shelf} {record : Parked F} {good : Parked F → Prop}
  {drafts : KeySet}

/-- A staging area holds the record of a draft that waits. -/
structure Stages (area : Area F) (shelf : Shelf) (record : Parked F) : Prop where
  stored : shelf.get? area.container record.key = some (Parked.codec.encode record)
  key : F.keyOf record.draft = record.key
  waits : ¬ record.missing.isEmpty = true
  refers : ∀ reference ∈ record.missing, reference ∈ F.references record.draft

/-- A staged record is read back as it was written. -/
theorem Stages.readable (hStages : area.Stages shelf record) :
    Parked.codec.decode (Parked.codec.encode record) = some record :=
  Parked.decode_encode hStages.waits hStages.refers

/-- A record stays staged as long as the entry under its key is the same. -/
theorem Stages.congr {other : Shelf} (hStages : area.Stages shelf record)
    (hSame : other.get? area.container record.key = shelf.get? area.container record.key) :
    area.Stages other record :=
  ⟨hSame.trans hStages.stored, hStages.key, hStages.waits, hStages.refers⟩

/-- Every draft of a set has a staged record that is good. -/
def Backs (area : Area F) (shelf : Shelf) (good : Parked F → Prop) (drafts : KeySet) : Prop :=
  ∀ key ∈ drafts, ∃ record, record.key = key ∧ area.Stages shelf record ∧ good record

/-- Fewer drafts are backed by the same entries, with a condition that follows for them. -/
theorem Backs.mono {other : Shelf} {fewer : KeySet} {fine : Parked F → Prop}
    (hBacks : area.Backs shelf good drafts) (hFewer : ∀ key ∈ fewer, key ∈ drafts)
    (hSame : ∀ key ∈ fewer, other.get? area.container key = shelf.get? area.container key)
    (hFine : ∀ record, record.key ∈ fewer → good record → fine record) :
    area.Backs other fine fewer := by
  intro key hKey
  obtain ⟨record, rfl, hStages, hGood⟩ := hBacks key (hFewer key hKey)
  exact ⟨record, rfl, hStages.congr (hSame _ hKey), hFine record hKey hGood⟩

/-! ## Fetching -/

/-- The records under a list of backed keys, read one after another. -/
theorem read_of_backs {keys : List String}
    (hBacks : ∀ key ∈ keys, ∃ record, record.key = key ∧ area.Stages shelf record ∧ good record) :
    ∃ records : List (Parked F),
      (keys.filterMap fun key => (shelf.get? area.container key).map (key, ·)).mapM
          (fun entry => Parked.codec.decode entry.2) = some records ∧
        records.map (·.key) = keys ∧ ∀ record ∈ records, area.Stages shelf record ∧ good record := by
  induction keys with
  | nil => exact ⟨[], rfl, rfl, by simp⟩
  | cons key rest ih =>
      obtain ⟨record, rfl, hStages, hGood⟩ := hBacks key (List.mem_cons_self ..)
      obtain ⟨records, hRead, hKeys, hAll⟩ :=
        ih fun other hOther => hBacks other (List.mem_cons_of_mem _ hOther)
      refine ⟨record :: records, ?_, ?_, ?_⟩
      · rw [List.filterMap_cons, hStages.stored, Option.map_some]
        simp [hStages.readable, hRead]
      · rw [List.map_cons, hKeys]
      · intro other hOther
        rcases List.mem_cons.mp hOther with rfl | hOther
        · exact ⟨hStages, hGood⟩
        · exact hAll other hOther

/-- What a fetch of backed drafts answers: their records, unless a scripted fault meets it. -/
theorem fetch_of_backs (hSome : ¬ drafts.isEmpty = true) (hBacks : area.Backs shelf good drafts) :
    (∃ fault faults, shelf.faults = fault :: faults ∧
        (area.fetch shelf drafts).1 = .error (.remote fault)) ∨
      (shelf.faults = [] ∧ (area.fetch shelf drafts).2.faults = [] ∧
        ∃ records, (area.fetch shelf drafts).1 = .ok records ∧
          records.map (·.key) = drafts.toList ∧
          ∀ record ∈ records, area.Stages shelf record ∧ good record) := by
  simp only [fetch, Shelf.fetch, if_neg hSome]
  cases hFaults : shelf.faults with
  | cons fault faults => exact Or.inl ⟨fault, faults, rfl, rfl⟩
  | nil =>
      obtain ⟨records, hRead, hKeys, hAll⟩ := read_of_backs hBacks
      refine Or.inr ⟨rfl, ?_, records, ?_, hKeys, hAll⟩ <;> simp [hRead]

end Area

/-! ## Sorting records out -/

/-- Whether a record misses nothing any more once some keys are available. -/
def Parked.isReady (available : KeySet) (record : Parked F) : Bool :=
  (record.without available).missing.isEmpty

namespace Engine

variable {engine : Engine F σ} {available : KeySet} {desk : Desk F σ} {records : List (Parked F)}
  {record : Parked F}

theorem sortRecords_of_ready (hReady : record.isReady available = true) :
    engine.sortRecords available desk (record :: records) =
      (record.draft :: (engine.sortRecords available desk records).1,
        (engine.sortRecords available desk records).2) := by
  rw [sortRecords]
  exact if_pos hReady

theorem sortRecords_of_waits (hWaits : ¬ record.isReady available = true) :
    engine.sortRecords available desk (record :: records) =
      engine.sortRecords available
        (desk.adopt (engine.area.save desk.world.shelf (record.without available))) records := by
  rw [sortRecords]
  exact if_neg hWaits

theorem sortRecords_drafts :
    (engine.sortRecords available desk records).1 =
      (records.filter (Parked.isReady available)).map (·.draft) := by
  induction records generalizing desk with
  | nil => rfl
  | cons record rest ih =>
      rw [List.filter_cons]
      by_cases hReady : record.isReady available = true
      · rw [sortRecords_of_ready hReady, if_pos hReady, List.map_cons, ih]
      · rw [sortRecords_of_waits hReady, if_neg hReady, ih]

/-- Sorting records out changes the shelf only, and reports what goes wrong. -/
theorem sortRecords_idle :
    Desk.Idle desk (engine.sortRecords available desk records).2 := by
  induction records generalizing desk with
  | nil => exact .refl
  | cons record rest ih =>
      by_cases hReady : record.isReady available = true
      · rw [sortRecords_of_ready hReady]
        exact ih
      · rw [sortRecords_of_waits hReady]
        exact Desk.adopt_idle.trans ih

/-- Of the world, sorting records out changes the shelf only. -/
theorem sortRecords_world : (engine.sortRecords available desk records).2.world =
    desk.world.withShelf (engine.sortRecords available desk records).2.world.shelf := by
  induction records generalizing desk with
  | nil => rfl
  | cons record rest ih =>
      by_cases hReady : record.isReady available = true
      · rw [sortRecords_of_ready hReady]
        exact ih
      · rw [sortRecords_of_waits hReady]
        exact ih

theorem sortRecords_remote :
    (engine.sortRecords available desk records).2.world.remote = desk.world.remote := by
  rw [sortRecords_world]
  rfl

theorem sortRecords_tally :
    (engine.sortRecords available desk records).2.tally = desk.tally := by
  induction records generalizing desk with
  | nil => rfl
  | cons record rest ih =>
      by_cases hReady : record.isReady available = true
      · rw [sortRecords_of_ready hReady]
        exact ih
      · rw [sortRecords_of_waits hReady]
        exact ih

/-- Other records are left alone. -/
theorem sortRecords_get?_ne {key : String} (hOther : ∀ record ∈ records, key ≠ record.key) :
    (engine.sortRecords available desk records).2.world.shelf.get? engine.area.container key =
      desk.world.shelf.get? engine.area.container key := by
  induction records generalizing desk with
  | nil => rfl
  | cons record rest ih =>
      have hRest : ∀ record ∈ rest, key ≠ record.key := fun other hMem =>
        hOther other (List.mem_cons_of_mem _ hMem)
      by_cases hReady : record.isReady available = true
      · rw [sortRecords_of_ready hReady]
        exact ih hRest
      · rw [sortRecords_of_waits hReady, ih hRest]
        have hNe : key ≠ (record.without available).key := hOther record (List.mem_cons_self ..)
        exact Area.save_get?_ne hNe

/-- Without scripted faults, every record that still misses something is saved with what it
misses. -/
theorem sortRecords_stored (hCalm : desk.world.shelf.faults = [])
    (hNodup : (records.map (·.key)).Nodup) (hMem : record ∈ records)
    (hWaits : ¬ record.isReady available = true) :
    (engine.sortRecords available desk records).2.world.shelf.get? engine.area.container
        record.key = some (Parked.codec.encode (record.without available)) := by
  induction records generalizing desk with
  | nil => exact absurd hMem List.not_mem_nil
  | cons head rest ih =>
      rw [List.map_cons, List.nodup_cons] at hNodup
      have hFresh : ∀ other ∈ rest, head.key ≠ other.key := fun other hOther hKey =>
        hNodup.1 (hKey ▸ List.mem_map_of_mem hOther)
      rcases List.mem_cons.mp hMem with rfl | hRest
      · rw [sortRecords_of_waits hWaits, sortRecords_get?_ne hFresh]
        exact Area.get?_save_of_calm hCalm
      · by_cases hReady : head.isReady available = true
        · rw [sortRecords_of_ready hReady]
          exact ih hCalm hNodup.2 hRest
        · rw [sortRecords_of_waits hReady]
          exact ih (Area.save_faults_of_calm hCalm) hNodup.2 hRest

/-- Without scripted faults, there are none after sorting records out. -/
theorem sortRecords_faults_of_calm (hCalm : desk.world.shelf.faults = []) :
    (engine.sortRecords available desk records).2.world.shelf.faults = [] := by
  induction records generalizing desk with
  | nil => exact hCalm
  | cons record rest ih =>
      by_cases hReady : record.isReady available = true
      · rw [sortRecords_of_ready hReady]
        exact ih hCalm
      · rw [sortRecords_of_waits hReady]
        exact ih (Area.save_faults_of_calm hCalm)

end Engine

end CatalogSync
