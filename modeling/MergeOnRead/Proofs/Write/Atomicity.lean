import MergeOnRead.Proofs.Write.Acceptance

/-!
# Staging is all or nothing

A write is staged on a transaction in place, in several steps: its files are checked, a change is
pushed, then watermarks and a summary entry are set. A check that fails ends the write where it is.
All checks come before the first change (`Replacement.keepsOnFailure_apply`,
`Append.keepsOnFailure_apply`), so a write succeeds as a whole, or it fails and the transaction is what
it was.

Main statement: `Write.staged_whole_or_not_at_all`.
-/

namespace MergeOnRead

open InPlace Result

theorem Metadata.checkPartitions_eq_ok_iff {metadata : Metadata} {files : List File} :
    metadata.checkPartitions files = .ok () ↔
      ∀ file ∈ files, metadata.spec.checkKey metadata.schema file.partition = .ok () :=
  forM_eq_ok_iff

namespace Replacement

variable {metadata : Metadata} {r : Replacement} {t t' : Transaction} {marks : Watermarks}

theorem transactionId_eq_ok_iff {id : TransactionId} :
    r.transactionId = .ok id ↔ r.transaction = some (id.val : Int) := by
  unfold transactionId
  cases r.transaction with
  | none => simp
  | some raw =>
    have hpos := id.positive
    have hlt := id.bounded
    unfold TransactionId.check TransactionId.ofInt?
    dsimp only
    split
    · rename_i other hother
      split at hother
      · obtain rfl := Option.some.inj hother
        rw [Except.ok.injEq, Option.some.injEq, TransactionId.mk.injEq]
        omega
      · cases hother
    · rename_i hnone
      split at hnone
      · cases hnone
      · rename_i hraw
        simp only [reduceCtorEq, Option.some.injEq, false_iff]
        rintro rfl
        exact hraw ⟨by omega, by omega⟩

/-- A writer gives a transaction id by giving a positive number of 63 bits. -/
theorem exists_transactionId_iff :
    (∃ id, r.transactionId = .ok id) ↔
      ∃ raw, r.transaction = some raw ∧ 0 < raw ∧ raw < 0x8000000000000000 := by
  constructor
  · rintro ⟨id, hid⟩
    have hpos := id.positive
    have hlt := id.bounded
    exact ⟨id.val, transactionId_eq_ok_iff.1 hid, by omega, by omega⟩
  · rintro ⟨raw, hraw, hpos, hlt⟩
    refine ⟨⟨raw.toNat, by omega, by omega⟩, transactionId_eq_ok_iff.2 ?_⟩
    rw [hraw, Int.toNat_of_nonneg (Int.le_of_lt hpos)]

/-- A replacement is staged if it is valid and, unless it has no files, on the base side. -/
theorem exists_run_apply_iff :
    (∃ marks t', (r.apply metadata).run t = .ok marks t') ↔
      r.Valid metadata ∧ (r.files = [] ∨ t.side = .base) := by
  simp only [← stage_eq_ok_iff]
  constructor
  · rintro ⟨marks, t', h⟩
    obtain ⟨id, -, -, hcases⟩ := run_apply_eq_ok_iff.1 (stage_eq_ok_iff.1 h)
    exact ⟨valid_of_stage h, hcases.imp (·.1) (·.2.1)⟩
  · rintro ⟨hvalid, hempty | hside⟩
    · obtain ⟨id, hid⟩ := hvalid.id
      exact ⟨_, t, stage_eq_ok_iff.2 (run_apply_eq_ok_iff.2 ⟨id, hid, rfl, .inl ⟨hempty, rfl⟩⟩)⟩
    · obtain ⟨marks, t', h, -⟩ := hvalid.exists_stage hside
      exact ⟨marks, t', h⟩

/-- What a replacement in place does to a transaction, whatever is staged there already. -/
structure StagesWhole (metadata : Metadata) (r : Replacement) (t : Transaction) : Prop where
  succeeds_iff :
    (∃ marks t', (r.apply metadata).run t = .ok marks t') ↔
      (∃ raw, r.transaction = some raw ∧ 0 < raw ∧ raw < 0x8000000000000000) ∧
        (r.files = [] ∨
          t.side = .base ∧ ∀ file ∈ r.files,
            metadata.spec.checkKey metadata.schema file.partition = .ok () ∧ file.side = .base)
  failed : ∀ {e t'}, (r.apply metadata).run t = .error e t' → t' = t
  empty : ∀ {marks t'}, r.files = [] → (r.apply metadata).run t = .ok marks t' →
    marks = t.watermarks ∧ t' = t
  staged : ∀ {marks t'}, r.files ≠ [] → (r.apply metadata).run t = .ok marks t' →
    ∃ id : TransactionId, r.transaction = some (id.val : Int) ∧
      t' = { t with
        changes := t.changes ++ [.replace r.files]
        stagedWatermarks := some marks
        summary := t.summary.insert SummaryKey.transactionId id.text } ∧
      ∀ partition, marks.get? partition =
        if r.Writes partition then some (Watermarks.atLeast id (t.watermarks.get? partition))
        else t.watermarks.get? partition

theorem get?_raiseAll_batch (id : TransactionId) (partition : Partition.Key) :
    (marks.raiseAll (r.batch id)).get? partition =
      if r.Writes partition then some (Watermarks.atLeast id (marks.get? partition))
      else marks.get? partition := by
  rw [Watermarks.get?_raiseAll, get?_batch]
  split <;> rfl

theorem stagesWhole (metadata : Metadata) (r : Replacement) (t : Transaction) :
    r.StagesWhole metadata t where
  succeeds_iff := by
    rw [exists_run_apply_iff, ← exists_transactionId_iff]
    constructor
    · rintro ⟨⟨hid, hsides, hkeys⟩, hempty | hside⟩
      · exact ⟨hid, .inl hempty⟩
      · exact ⟨hid, .inr ⟨hside, fun file hfile =>
          ⟨Metadata.checkPartitions_eq_ok_iff.1 hkeys file hfile, hsides file hfile⟩⟩⟩
    · rintro ⟨hid, hempty | ⟨hside, hfiles⟩⟩
      · have hkeys : metadata.checkPartitions r.files = .ok () :=
          Metadata.checkPartitions_eq_ok_iff.2 (by simp [hempty])
        exact ⟨⟨hid, by simp [hempty], hkeys⟩, .inl hempty⟩
      · exact ⟨⟨hid, fun file hfile => (hfiles file hfile).2,
          Metadata.checkPartitions_eq_ok_iff.2 fun file hfile => (hfiles file hfile).1⟩, .inr hside⟩
  failed h := keepsOnFailure_apply metadata r h
  empty hempty h := by
    obtain ⟨id, -, hmarks, ⟨-, rfl⟩ | ⟨hfiles, -⟩⟩ := run_apply_eq_ok_iff.1 h
    · exact ⟨hmarks, rfl⟩
    · exact absurd hempty hfiles
  staged hfiles h := by
    obtain ⟨id, hid, rfl, ⟨hempty, -⟩ | ⟨-, -, -, rfl⟩⟩ := run_apply_eq_ok_iff.1 h
    · exact absurd hempty hfiles
    · exact ⟨id, transactionId_eq_ok_iff.1 hid, rfl, get?_raiseAll_batch id⟩

end Replacement

namespace Append

variable {metadata : Metadata} {a : Append} {t t' : Transaction}

/-- What an append in place does to a transaction, whatever is staged there already. -/
structure StagesWhole (metadata : Metadata) (a : Append) (t : Transaction) : Prop where
  succeeds_iff :
    (∃ t', (a.apply metadata).run t = .ok () t') ↔
      a.files = [] ∨
        t.side = .change ∧ ∀ file ∈ a.files,
          metadata.spec.checkKey metadata.schema file.partition = .ok () ∧ file.side = .change
  failed : ∀ {e t'}, (a.apply metadata).run t = .error e t' → t' = t
  empty : ∀ {t'}, a.files = [] → (a.apply metadata).run t = .ok () t' → t' = t
  staged : ∀ {t'}, a.files ≠ [] → (a.apply metadata).run t = .ok () t' →
    t' = { t with
      changes := t.changes ++ [.append a.files]
      summary := a.summary t.summary }

theorem stagesWhole (metadata : Metadata) (a : Append) (t : Transaction) :
    a.StagesWhole metadata t where
  succeeds_iff := by
    simp only [run_apply_eq_ok_iff, Metadata.checkPartitions_eq_ok_iff]
    constructor
    · rintro ⟨t', ⟨hempty, -⟩ | ⟨-, hside, ⟨hsides, hkeys⟩, -⟩⟩
      · exact .inl hempty
      · exact .inr ⟨hside, fun file hfile => ⟨hkeys file hfile, hsides file hfile⟩⟩
    · intro h
      by_cases hempty : a.files = []
      · exact ⟨t, .inl ⟨hempty, rfl⟩⟩
      · obtain ⟨hside, hfiles⟩ := h.resolve_left hempty
        exact ⟨_, .inr ⟨hempty, hside,
          ⟨fun file hfile => (hfiles file hfile).2, fun file hfile => (hfiles file hfile).1⟩, rfl⟩⟩
  failed h := keepsOnFailure_apply metadata a h
  empty hempty h := by
    rcases run_apply_eq_ok_iff.1 h with ⟨-, rfl⟩ | ⟨hfiles, -⟩
    · rfl
    · exact absurd hempty hfiles
  staged hfiles h := by
    rcases run_apply_eq_ok_iff.1 h with ⟨hempty, -⟩ | ⟨-, -, -, rfl⟩
    · exact absurd hempty hfiles
    · rfl

end Append

/-- Staging a write is all or nothing, for every replacement and append and on every transaction. -/
theorem Write.staged_whole_or_not_at_all (metadata : Metadata) (t : Transaction) :
    (∀ r : Replacement, r.StagesWhole metadata t) ∧ ∀ a : Append, a.StagesWhole metadata t :=
  ⟨fun r => r.stagesWhole metadata t, fun a => a.stagesWhole metadata t⟩

end MergeOnRead
