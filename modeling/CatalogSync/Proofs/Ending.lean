import CatalogSync.Catalog.Families
import CatalogSync.Proofs.Rounds
import CatalogSync.Proofs.Working
import CatalogSync.Sync.Course

/-!
# Releasing waiting drafts ends

What a round creates may be what other drafts wait for, drafts may refer to each other in a circle,
and a record that still misses something is saved again. So neither the records nor the available
keys get fewer from round to round. The entries of the index do: a round uses at least one of them
up, and no round adds any, because drafts are parked only when they are handed in.

`Engine.Releases` tells the rounds one by one, as steps that follow each other until no available
key concerns a waiting draft. It holds of a run only if the rounds end, and it does not mention why
they do.

## Main results

* `Engine.Releases.length_le`: there are at most as many rounds as entries.
* `Engine.Releases.unique`: the rounds are determined.
* `Engine.releaseRound_fetches`: a round makes one fetch.
* `Engine.release_ends`: releasing ends after at most one fetch for each entry.
-/

namespace CatalogSync.Engine

variable {F : Family} {σ : Type} {engine : Engine F σ} {run after : Run F σ} {desk : Desk F σ}
  {available : KeySet} {asked : List KeySet}

/-! ## Rounds one by one -/

/-- The rounds for some available keys, one after another until these concern no waiting draft: the
sets of drafts whose records were fetched, and the run afterwards. -/
inductive Releases (engine : Engine F σ) : KeySet → Run F σ → List KeySet → Run F σ → Prop
  | done {available : KeySet} {run : Run F σ}
      (hNone : (run.waiting.waitingOn available).isEmpty = true) :
      Releases engine available run [] (run.withWaiting (run.waiting.forget available))
  | round {available : KeySet} {run after : Run F σ} {asked : List KeySet}
      (hSome : ¬ (run.waiting.waitingOn available).isEmpty = true)
      (hRest : Releases engine
        (engine.releaseRound run available (run.waiting.waitingOn available)).1
        (engine.releaseRound run available (run.waiting.waitingOn available)).2 asked after) :
      Releases engine available run (run.waiting.waitingOn available :: asked) after

/-- Releasing is going through the rounds until they end. -/
theorem release_releases (engine : Engine F σ) (run : Run F σ) (available : KeySet) :
    ∃ asked, engine.Releases available run asked (engine.release run available) := by
  fun_induction Engine.release engine run available with
  | case1 run available hNone => exact ⟨[], .done hNone⟩
  | case2 run available hSome round ih =>
      obtain ⟨asked, hRest⟩ := ih
      exact ⟨_ :: asked, .round hSome hRest⟩

/-- There are at most as many rounds as the index has entries. -/
theorem Releases.length_le (hReleases : engine.Releases available run asked after) :
    asked.length ≤ run.waiting.byMissing.size := by
  induction hReleases with
  | done hNone => exact Nat.zero_le _
  | round hSome hRest ih =>
      rw [releaseRound_byMissing] at ih
      exact Nat.lt_of_le_of_lt ih (Waiting.size_forget_lt hSome)

/-- A round is for some draft. -/
theorem Releases.not_isEmpty (hReleases : engine.Releases available run asked after) :
    ∀ drafts ∈ asked, ¬ drafts.isEmpty = true := by
  induction hReleases with
  | done hNone => simp
  | round hSome hRest ih =>
      intro drafts hDrafts
      rcases List.mem_cons.mp hDrafts with rfl | hLater
      · exact hSome
      · exact ih drafts hLater

/-- The rounds are determined. -/
theorem Releases.unique {others : List KeySet} {last : Run F σ}
    (hReleases : engine.Releases available run asked after)
    (hOther : engine.Releases available run others last) : others = asked ∧ last = after := by
  induction hReleases generalizing others last with
  | done hNone =>
      cases hOther with
      | done => exact ⟨rfl, rfl⟩
      | round hSome => exact absurd hNone hSome
  | round hSome hRest ih =>
      cases hOther with
      | done hNone => exact absurd hNone hSome
      | round _ hOtherRest =>
          obtain ⟨rfl, rfl⟩ := ih hOtherRest
          exact ⟨rfl, rfl⟩

/-! ## Fetches -/

theorem sortRecords_fetches {records : List (Parked F)} :
    (engine.sortRecords available desk records).2.world.shelf.fetches =
      desk.world.shelf.fetches := by
  induction records generalizing desk with
  | nil => rfl
  | cons record rest ih =>
      by_cases hReady : record.isReady available = true
      · rw [sortRecords_of_ready hReady]
        exact ih
      · rw [sortRecords_of_waits hReady, ih]
        exact Area.save_fetches

theorem clearRecords_fetches {outcomes : List (String × Phase)} :
    (engine.clearRecords desk outcomes).world.shelf.fetches = desk.world.shelf.fetches := by
  induction outcomes generalizing desk with
  | nil => rfl
  | cons outcome rest ih =>
      unfold clearRecords
      split
      · rw [ih]
        exact Area.delete_fetches
      · exact ih

theorem settle_fetches {outcomes : List (String × Phase)} :
    (engine.settle run outcomes).desk.world.shelf.fetches = run.desk.world.shelf.fetches := by
  simp only [settle]
  split
  · rfl
  · exact clearRecords_fetches

/-- A round makes one fetch. Its records are saved and deleted, but they are not fetched again. -/
theorem releaseRound_fetches {drafts : KeySet} (hSpares : engine.options.SparesShelf)
    (hSome : ¬ drafts.isEmpty = true) :
    (engine.releaseRound run available drafts).2.desk.world.shelf.fetches =
      run.desk.world.shelf.fetches + 1 := by
  have hFetched : (engine.area.fetch run.desk.world.shelf drafts).2.fetches =
      run.desk.world.shelf.fetches + 1 := Area.fetch_fetches hSome
  simp only [releaseRound]
  split
  · exact (congrArg (fun world : World F σ => world.shelf.fetches)
      Desk.failMany_world).trans hFetched
  · rw [settle_fetches]
    show (Desk.syncBatches engine.options _ _).2.world.shelf.fetches = _
    rw [Desk.syncBatches_worked.shelf hSpares, sortRecords_fetches]
    exact hFetched

/-- Each round makes one fetch. -/
theorem Releases.fetches (hReleases : engine.Releases available run asked after)
    (hSpares : engine.options.SparesShelf) :
    after.desk.world.shelf.fetches = run.desk.world.shelf.fetches + asked.length := by
  induction hReleases with
  | done hNone => rfl
  | round hSome hRest ih =>
      rw [ih, releaseRound_fetches hSpares hSome, List.length_cons]
      omega

/-! ## The theorem -/

/--
Releasing ends, whatever waits, whatever was staged, whatever goes wrong and however the drafts refer
to each other. It goes through rounds, which the run and the available keys determine, and there are
at most as many of them as the index has entries for missing keys when it begins. In each round the
records of some drafts are fetched, once. Unless a hook reaches for the shelf itself, these are all
the fetches that are made.
-/
theorem release_ends (engine : Engine F σ) (run : Run F σ) (available : KeySet) :
    ∃ asked, engine.Releases available run asked (engine.release run available) ∧
      asked.length ≤ run.waiting.byMissing.size ∧
      (∀ drafts ∈ asked, ¬ drafts.isEmpty = true) ∧
      (∀ others last, engine.Releases available run others last →
        others = asked ∧ last = engine.release run available) ∧
      (engine.options.SparesShelf →
        (engine.release run available).desk.world.shelf.fetches =
            run.desk.world.shelf.fetches + asked.length ∧
          (engine.release run available).desk.world.shelf.fetches ≤
            run.desk.world.shelf.fetches + run.waiting.byMissing.size) := by
  obtain ⟨asked, hReleases⟩ := release_releases engine run available
  refine ⟨asked, hReleases, hReleases.length_le, hReleases.not_isEmpty,
    fun others last hOther => hReleases.unique hOther, fun hSpares => ?_⟩
  have hFetches := hReleases.fetches hSpares
  exact ⟨hFetches, hFetches ▸ Nat.add_le_add_left hReleases.length_le _⟩

/-- Two categories that are each other's parent wait for each other. Once one of them is available,
two rounds make the two fetches that the two entries allow. -/
theorem release_ends_circle :
    let names : LocalizedText := ⟨KeyMap.empty⟩
    let engine := deferring (F := Family.category)
    let run := engine.follow (Run.start (.bare toString))
      [.sync [ some ((Category.Draft.basic "men" names names).withParent "women")
             , some ((Category.Draft.basic "women" names names).withParent "men") ]]
    run.waiting.byMissing.size = 2 ∧
      ∃ asked, engine.Releases (KeySet.singleton "men") run asked
          (engine.release run (KeySet.singleton "men")) ∧ asked.length = 2 ∧
        (engine.release run (KeySet.singleton "men")).desk.world.shelf.fetches = asked.length := by
  intro names engine run
  have hHookless : engine.options.Hookless := ⟨rfl, rfl⟩
  obtain ⟨asked, hReleases, -, -, -, hFetches⟩ := release_ends engine run (KeySet.singleton "men")
  have hBefore : run.desk.world.shelf.fetches = 0 := by decide +kernel
  have hAfter : (engine.release run (KeySet.singleton "men")).desk.world.shelf.fetches = 2 := by
    decide +kernel
  have hCount := (hFetches hHookless.sparesShelf).1
  rw [hBefore, Nat.zero_add] at hCount
  exact ⟨by decide +kernel, asked, hReleases, hCount.symm.trans hAfter, hCount⟩

end CatalogSync.Engine
