/-!
# Refusals

Why the difference between a resource and a draft cannot be written as a list of actions.

## Main results

* `Refusal.bind_eq_ok_iff`: steps that may be refused succeed together when each of them does.
* `Refusal.bind_eq_error_iff`: the first step that is refused decides for which reason.
-/

namespace CatalogSync

/-- Why a difference cannot be written as actions. -/
inductive Refusal where
  /-- A keyed list repeats a key, so its elements cannot be matched. -/
  | duplicateKey (collection key : String)
  /-- No action of the family makes the change. -/
  | unsupportedChange (field reason : String)
deriving DecidableEq, Repr

namespace Refusal

/-- The text shown for a refusal. -/
def message : Refusal → String
  | .duplicateKey collection key => s!"duplicate key '{key}' in {collection}"
  | .unsupportedChange field reason => s!"unsupported change of {field}: {reason}"

/-- Two steps succeed exactly when the first does and the second does with its value. -/
theorem bind_eq_ok_iff {α β : Type} {first : Except Refusal α} {next : α → Except Refusal β}
    {result : β} :
    (first >>= next) = .ok result ↔ ∃ value, first = .ok value ∧ next value = .ok result := by
  cases first with
  | error refusal => simp [bind, Except.bind]
  | ok value => simp [bind, Except.bind]

/-- Two steps are refused as the first one is, or else as the second one is. -/
theorem bind_eq_error_iff {α β : Type} {first : Except Refusal α} {next : α → Except Refusal β}
    {refusal : Refusal} :
    (first >>= next) = .error refusal ↔
      first = .error refusal ∨ ∃ value, first = .ok value ∧ next value = .error refusal := by
  cases first with
  | error other => simp [bind, Except.bind]
  | ok value => simp [bind, Except.bind]

/-- A last step that always succeeds is of no account. -/
theorem bind_pure_eq_error_iff {α β : Type} {first : Except Refusal α} {last : α → β}
    {refusal : Refusal} :
    (first >>= fun value => pure (last value)) = .error refusal ↔ first = .error refusal := by
  rw [bind_eq_error_iff]
  simp [pure, Except.pure]

/-- What is not refused succeeds. -/
theorem exists_eq_ok_iff {α : Type} {result : Except Refusal α} :
    (∃ value, result = .ok value) ↔ ∀ refusal, result ≠ .error refusal := by
  cases result <;> simp

end Refusal

end CatalogSync
