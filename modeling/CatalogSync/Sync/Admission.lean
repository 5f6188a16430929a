import CatalogSync.Sync.Run

/-!
# Admission of drafts

Before a batch is synced, drafts that cannot be processed are turned away, and drafts with
references that do not exist yet are parked. The rest is ready.

## Main results

* `valid_of_mem_screen`: every draft that passes the screening has a key.
* `ready_of_no_references`: the resolver is asked only if some draft has references.
-/

namespace CatalogSync

variable {F : Family} {σ : Type}

/-! ## Screening -/

/-- Whether a draft has a key, and the key is not empty. -/
def Family.hasKey (F : Family) (draft : F.Draft) : Bool := F.keyOf draft != ""

/-- The keys of the drafts in a list that have one, in order. -/
def Family.keysIn (F : Family) (drafts : List (Option F.Draft)) : List String :=
  (drafts.filterMap (Option.filter F.hasKey)).map F.keyOf

theorem Family.keysIn_append {drafts more : List (Option F.Draft)} :
    F.keysIn (drafts ++ more) = F.keysIn drafts ++ F.keysIn more := by
  rw [keysIn, List.filterMap_append, List.map_append]
  rfl

namespace Desk

/-- Reports and counts a draft that cannot be processed. -/
def failInvalid (desk : Desk F σ) (options : Options F σ) (message reason : String) : Desk F σ :=
  desk.failMany options message (.invalidDraft reason) 1

/-- Turns absent drafts and drafts without a key away; the others, in order. -/
def screen (options : Options F σ) :
    Desk F σ → List (Option F.Draft) → List F.Draft × Desk F σ
  | desk, [] => ([], desk)
  | desk, none :: rest =>
      screen options
        (desk.failInvalid options s!"Failed to process null {F.name} draft." "draft is null") rest
  | desk, some draft :: rest =>
      if F.hasKey draft then
        let others := screen options desk rest
        (draft :: others.1, others.2)
      else
        screen options
          (desk.failInvalid options s!"Failed to process {F.name} draft without key."
            "draft has no key")
          rest

/-- The drafts that pass the screening are those with a key. -/
theorem screen_drafts {options : Options F σ} {desk : Desk F σ}
    {drafts : List (Option F.Draft)} :
    (screen options desk drafts).1 = drafts.filterMap (Option.filter F.hasKey) := by
  induction drafts generalizing desk with
  | nil => rfl
  | cons draft rest ih =>
      cases draft with
      | none => exact ih
      | some draft =>
          unfold screen
          rw [List.filterMap_cons]
          split
          · rename_i hKey
            rw [Option.filter_some_pos hKey]
            exact congrArg (draft :: ·) ih
          · rename_i hKey
            rw [Option.filter_some_neg (Bool.not_eq_true _ ▸ hKey)]
            exact ih

/-- Drafts that all have a key pass the screening without a report. -/
theorem screen_of_hasKey {options : Options F σ} {desk : Desk F σ} {drafts : List F.Draft}
    (hKey : ∀ draft ∈ drafts, F.hasKey draft = true) :
    screen options desk (drafts.map some) = (drafts, desk) := by
  induction drafts with
  | nil => rfl
  | cons draft rest ih =>
      rw [List.map_cons, screen, if_pos (hKey draft (List.mem_cons_self ..)),
        ih fun other hOther => hKey other (List.mem_cons_of_mem _ hOther)]

/-- Every draft that passes the screening has a key. -/
theorem valid_of_mem_screen {options : Options F σ} {desk : Desk F σ}
    {drafts : List (Option F.Draft)} {draft : F.Draft}
    (hMem : draft ∈ (screen options desk drafts).1) :
    some draft ∈ drafts ∧ F.hasKey draft = true := by
  induction drafts generalizing desk with
  | nil => exact absurd hMem List.not_mem_nil
  | cons head rest ih =>
      cases head with
      | none => exact ⟨List.mem_cons_of_mem _ (ih hMem).1, (ih hMem).2⟩
      | some other =>
          unfold screen at hMem
          split at hMem
          · rename_i hKey
            rcases List.mem_cons.mp hMem with rfl | hRest
            · exact ⟨List.mem_cons_self .., hKey⟩
            · exact ⟨List.mem_cons_of_mem _ (ih hRest).1, (ih hRest).2⟩
          · exact ⟨List.mem_cons_of_mem _ (ih hMem).1, (ih hMem).2⟩

end Desk

/-! ## Parking -/

/-- The keys that some draft of a list refers to. -/
def Family.referencesOf (F : Family) (drafts : List F.Draft) : KeySet :=
  drafts.foldl (fun keys draft => keys.union (F.references draft)) ∅

theorem Family.mem_referencesOf {drafts : List F.Draft} {key : String} :
    key ∈ F.referencesOf drafts ↔ ∃ draft ∈ drafts, key ∈ F.references draft := by
  have hFold : ∀ keys : KeySet,
      key ∈ drafts.foldl (fun keys draft => keys.union (F.references draft)) keys ↔
        key ∈ keys ∨ ∃ draft ∈ drafts, key ∈ F.references draft := by
    induction drafts with
    | nil => simp
    | cons draft rest ih =>
        intro keys
        rw [List.foldl_cons, ih, KeySet.mem_union, or_assoc]
        simp
  rw [referencesOf, hFold]
  simp

namespace Engine

/-- Parks a draft until the missing keys exist; a draft that cannot be saved has failed. -/
def park (engine : Engine F σ) (run : Run F σ) (draft : F.Draft) (missing : KeySet) : Run F σ :=
  let saved := engine.area.save run.desk.world.shelf ⟨F.keyOf draft, draft, missing⟩
  let desk := run.desk.adopt saved
  match saved.answer with
  | none => run.withDesk (desk.withTally (desk.tally.addFailed 1))
  | some record =>
      let parked := ((run.withDesk (desk.enter (.parked record))).withWaiting
        (run.waiting.park (F.keyOf draft) missing)).gauge
      parked.withDesk (parked.desk.warn engine.options
        (s!"Deferred {F.name} draft with key: '{F.keyOf draft}' until its references " ++
          s!"'{missing.render}' exist."))

/-- Parks the drafts with references that do not exist; the others, in order. -/
def parkIncomplete (engine : Engine F σ) (existing : KeySet) :
    Run F σ → List F.Draft → List F.Draft × Run F σ
  | run, [] => ([], run)
  | run, draft :: rest =>
      let missing := (F.references draft).diff existing
      if missing.isEmpty then
        let others := engine.parkIncomplete existing run rest
        (draft :: others.1, others.2)
      else engine.parkIncomplete existing (engine.park run draft missing) rest

/--
The drafts of a batch that can be synced now.

The resolver is asked once about all references of the batch. If it fails, the drafts that have
references fail with it.
-/
def ready (engine : Engine F σ) (resolver : Resolver F σ) (run : Run F σ)
    (drafts : List F.Draft) : List F.Draft × Run F σ :=
  let referenced := F.referencesOf drafts
  if referenced.isEmpty then (drafts, run)
  else
    let answer := resolver run.desk.world referenced
    let desk := (run.desk.enter (.resolving referenced)).withWorld answer.2
    match answer.1 with
    | .ok existing => engine.parkIncomplete existing (run.withDesk desk) drafts
    | .error fault =>
        let blocked := drafts.filter fun draft => !(F.references draft).isEmpty
        (drafts.filter fun draft => (F.references draft).isEmpty,
          run.withDesk (desk.failMany engine.options
            (s!"Failed to resolve references of {F.plural} with keys: " ++
              s!"'{(F.keysOf blocked).render}'.")
            (.remote fault) blocked.length))

/-- Parking leaves some of the drafts, in order. -/
theorem parkIncomplete_sublist {engine : Engine F σ} {existing : KeySet} {run : Run F σ}
    {drafts : List F.Draft} : (engine.parkIncomplete existing run drafts).1.Sublist drafts := by
  induction drafts generalizing run with
  | nil => exact .slnil
  | cons draft rest ih =>
      simp only [parkIncomplete]
      split
      · exact ih.cons_cons draft
      · exact ih.cons draft

/-- Some of the drafts of a batch can be synced now, in order. -/
theorem ready_sublist {engine : Engine F σ} {resolver : Resolver F σ} {run : Run F σ}
    {drafts : List F.Draft} : (engine.ready resolver run drafts).1.Sublist drafts := by
  simp only [ready]
  split
  · exact .refl _
  · split
    · exact parkIncomplete_sublist
    · exact List.filter_sublist

/-- The resolver is asked only if some draft has references. -/
theorem ready_of_no_references {engine : Engine F σ} {resolver : Resolver F σ} {run : Run F σ}
    {drafts : List F.Draft} (hNone : (F.referencesOf drafts).isEmpty = true) :
    engine.ready resolver run drafts = (drafts, run) := by
  simp [ready, hNone]

end Engine

end CatalogSync
