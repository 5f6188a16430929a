import CatalogSync.Family

/-!
# Parked drafts

A draft that refers to resources which do not exist yet is parked: it is written into the staging
container together with the keys it waits for.

## Main results

* `decode_encode`: the record that is read back is the record that was written.
-/

namespace CatalogSync

/-- A draft that waits for resources it refers to. -/
structure Parked (F : Family) where
  /-- The key of the draft. -/
  key : String
  /-- The draft itself. -/
  draft : F.Draft
  /-- The keys of the resources that do not exist yet. -/
  missing : KeySet

namespace Parked

variable {F : Family}

/-- How a record is written; all its members have to be there. -/
def codec : Codec (Parked F) where
  encode record := .object
    [ ("key", .string record.key)
    , ("draft", F.drafts.encode record.draft)
    , ("missing_references", Codec.keySet.encode record.missing) ]
  decode value := do
    let fields ← value.record? ["key", "draft", "missing_references"]
    return { key := ← Codec.string.required fields "key"
             draft := ← F.drafts.required fields "draft"
             missing := ← Codec.keySet.required fields "missing_references" }

/-- The record without the keys that have become available. -/
def without (record : Parked F) (available : KeySet) : Parked F :=
  { record with missing := record.missing.diff available }

/-- The record that is read back is the record that was written, if its draft is. -/
theorem decode_encode_of_draft {record : Parked F}
    (hDraft : F.drafts.decode (F.drafts.encode record.draft) = some record.draft) :
    codec.decode (codec.encode record) = some record := by
  simp only [codec, Json.record?, Option.bind_eq_bind, Option.bind_some]
  rw [Codec.required_string, Codec.required_skip (by decide),
    Codec.required_self hDraft, Codec.required_skip (by decide),
    Codec.required_skip (by decide), Codec.required_self (Codec.faithful_keySet record.missing)]
  rfl

/-- The record that is read back is the record that was written: a parked draft has references. -/
theorem decode_encode {record : Parked F} (hMissing : ¬ record.missing.isEmpty = true)
    (hReferences : ∀ reference ∈ record.missing, reference ∈ F.references record.draft) :
    codec.decode (codec.encode record) = some record := by
  refine decode_encode_of_draft (F.restores record.draft fun hNone => hMissing ?_)
  rw [KeySet.isEmpty_iff] at hNone ⊢
  exact fun reference hMem => hNone reference (hReferences reference hMem)

end Parked

end CatalogSync
