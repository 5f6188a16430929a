import CatalogSync.Catalog.Families
import CatalogSync.Proofs.Lasting
import Mathlib.Algebra.Group.Nat.Defs

/-!
# The gauge of waiting drafts

How many drafts wait is kept twice: by the index, whose set of drafts is what waits, and by the
tally, whose gauge is what is shown. The index is changed in three places, where a draft is parked,
where drafts that ended are settled, and where drafts are given up; and the gauge has to be set in
each of them. The tally in turn is changed wherever a draft ends, and none of these places may touch
the gauge.

Nothing is asked of hooks and resolvers: whatever they do to the world, neither the index nor the
tally is theirs.

## Main results

* `Desk.syncBatch_gauge`: drafts that are synced leave the gauge alone.
* `Engine.gauged_lasting`: nothing that an engine does makes the gauge wrong.
* `Engine.gauge_exact`: after every batch the gauge shows how many drafts wait.
-/

namespace CatalogSync

variable {F : Family} {σ : Type}

/-! ## What leaves the gauge alone -/

namespace Desk

variable {options : Options F σ} {desk : Desk F σ}

theorem processAll_gauge {found : KeyMap F.Resource} {drafts : List F.Draft} :
    (processAll options found desk drafts).2.tally.waiting = desk.tally.waiting := by
  induction drafts generalizing desk with
  | nil => rfl
  | cons draft rest ih =>
      refine Eq.trans ih ?_
      rw [process_tally, Tally.waiting_record]

theorem syncBatch_gauge {drafts : List F.Draft} :
    (desk.syncBatch options drafts).2.tally.waiting = desk.tally.waiting := by
  unfold syncBatch
  split
  · rfl
  · simp only
    split
    · exact processAll_gauge
    · rfl

end Desk

/-! ## What sets it -/

namespace Run

variable {run : Run F σ}

/-- The gauge shows how many drafts wait. -/
def Gauged (run : Run F σ) : Prop :=
  run.desk.tally.waiting = UInt64.ofNat run.waiting.drafts.size

/-- A desk with the same gauge shows the same. -/
theorem Gauged.withDesk (hGauged : run.Gauged) {desk : Desk F σ}
    (hSame : desk.tally.waiting = run.desk.tally.waiting) : (run.withDesk desk).Gauged :=
  hSame.trans hGauged

/-- The gauge is the number itself as long as this is a number of 64 bits. -/
theorem Gauged.toNat (hGauged : run.Gauged) (hSmall : run.waiting.drafts.size < 2 ^ 64) :
    run.desk.tally.waiting.toNat = run.waiting.drafts.size := by
  rw [hGauged]
  exact UInt64.toNat_ofNat_of_lt' hSmall

end Run

namespace Engine

variable {engine : Engine F σ} {run : Run F σ}

/-- A parked draft moves the gauge with the index; one that cannot be saved moves neither. -/
theorem park_gauged {draft : F.Draft} {missing : KeySet} (hGauged : run.Gauged) :
    (engine.park run draft missing).Gauged := by
  cases hFaults : run.desk.world.shelf.faults with
  | nil =>
      obtain ⟨hWaiting, -, hTally⟩ := @park_of_calm F σ engine run draft missing hFaults
      unfold Run.Gauged
      rw [hWaiting, hTally]
      rfl
  | cons fault faults =>
      obtain ⟨hWaiting, -, hTally⟩ := @park_of_fault F σ engine run draft missing _ _ hFaults
      unfold Run.Gauged
      rw [hWaiting, hTally]
      exact hGauged

/-- Settling sets the gauge when it releases a draft, and changes nothing when it does not. -/
theorem settle_gauged {outcomes : List (String × Phase)} (hGauged : run.Gauged) :
    (engine.settle run outcomes).Gauged := by
  unfold Run.Gauged
  rw [settle_tally hGauged]
  rfl

/-- Nothing that an engine does makes the gauge wrong. Giving drafts up sets it whatever it was, and
using up entries of the index lets all drafts wait on. -/
theorem gauged_lasting : engine.Lasting Run.Gauged where
  fail := fun hGauged => hGauged.withDesk rfl
  ask := fun _ hGauged => hGauged.withDesk rfl
  park := park_gauged
  sync := fun hGauged => hGauged.withDesk Desk.syncBatch_gauge
  settle := settle_gauged
  fetch := fun hGauged => hGauged.withDesk rfl
  sort := fun hGauged => hGauged.withDesk (congrArg Tally.waiting sortRecords_tally)
  forget := fun hGauged => hGauged
  abandon := fun _ => rfl

/--
The gauge shows how many drafts wait: after any number of errands, and after each batch of a further
call, whatever goes wrong with the remote, the shelf and the resolver, and whatever the hooks do. It
shows the number itself as long as fewer than 2⁶⁴ drafts wait.
-/
theorem gauge_exact (engine : Engine F σ) (world : World F σ) (errands : List (Errand F))
    (drafts : List (Option F.Draft)) (count : Nat) :
    let called := engine.follow (Run.start world) errands
    let run := ((engine.options.batches drafts).take count).foldl engine.syncBatch called
    run.desk.tally.waiting = UInt64.ofNat run.waiting.drafts.size ∧
      (run.waiting.drafts.size < 2 ^ 64 →
        run.desk.tally.waiting.toNat = run.waiting.drafts.size) := by
  intro called run
  have hStart : (Run.start world).Gauged := rfl
  have hCalled : called.Gauged :=
    gauged_lasting.follow (fun _ _ hGauged => hGauged.withDesk rfl) hStart
  have hRun : run.Gauged := gauged_lasting.syncBatches hCalled
  exact ⟨hRun, hRun.toNat⟩

/-- Of two children whose parent does not exist, one is lost while it is parked, and the other one
waits and is counted once although it is handed in again. -/
theorem gauge_exact_children :
    let names : LocalizedText := ⟨KeyMap.empty⟩
    let child := fun key => some ((Category.Draft.basic key names names).withParent "parent")
    let errands : List (Errand Family.category) :=
      [ .failStaging (.other "unreachable")
      , .sync [child "first", child "second"]
      , .sync [child "second"] ]
    let run := Engine.deferring.follow (Run.start (.bare toString)) errands
    run.waiting.drafts.toList = ["second"] ∧ run.desk.tally.waiting.toNat = 1 := by
  intro names child errands run
  have hDrafts : run.waiting.drafts.toList = ["second"] := by decide +kernel
  have hSize : run.waiting.drafts.size = 1 := congrArg List.length hDrafts
  have hGauge := (gauge_exact Engine.deferring (.bare toString) errands [] 0).2
  refine ⟨hDrafts, (hGauge ?_).trans hSize⟩
  show run.waiting.drafts.size < 2 ^ 64
  rw [hSize]
  decide

end Engine

end CatalogSync
