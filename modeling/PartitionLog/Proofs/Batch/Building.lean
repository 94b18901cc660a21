import PartitionLog.Batch.Draft
import PartitionLog.Proofs.Batch.Reading

/-!
# Batches as they are made

A built batch has the checksums and the size that reading asks for: `sealed_build`.
-/
namespace PartitionLog

/-- The batch of a header and records, with the checksums they ask for. -/
def Batch.seal (header : BatchHeader) (records : Bytes) : Batch :=
  let checked := { header with crc := header.computedCrc records }
  { header := { checked with headerCrc := checked.computedHeaderCrc }, records }

theorem Batch.sealed_seal {header : BatchHeader} {records : Bytes}
    (size : header.recordsSize = some records.length) : Batch.Sealed (.seal header records) :=
  ⟨rfl, size, rfl⟩

namespace BatchDraft

/-- The batch has a size that a header can state, and records within the limit. -/
structure Fits (config : ReaderConfig) (draft : BatchDraft) : Prop where
  within : draft.region.length ≤ config.maxBatchSize
  representable : BatchHeader.size + draft.region.length ≤ Int32.maxValue.toInt

theorem toInt_batchSize_build (draft : BatchDraft)
    (representable : BatchHeader.size + draft.region.length ≤ Int32.maxValue.toInt) :
    draft.build.header.batchSize.toInt = BatchHeader.size + draft.region.length := by
  rw [Int32.toInt_maxValue] at representable
  have small : BatchHeader.size + draft.region.length < 2 ^ 31 := by omega
  exact (Int32.toInt_ofNat_of_lt small).trans (Int.natCast_add _ _)

theorem sealed_build (draft : BatchDraft)
    (representable : BatchHeader.size + draft.region.length ≤ Int32.maxValue.toInt) :
    Batch.Sealed draft.build := by
  have size : draft.unsealed.batchSize.toInt = _ := draft.toInt_batchSize_build representable
  have declared : ¬ draft.unsealed.batchSize.toInt < BatchHeader.size := by omega
  have records : (draft.unsealed.batchSize.toInt - BatchHeader.size).toNat =
      draft.region.length := by omega
  apply Batch.sealed_seal
  rw [BatchHeader.recordsSize, if_neg declared, records]

theorem Fits.intact {config : ReaderConfig} {draft : BatchDraft} (fits : draft.Fits config) :
    Batch.Intact config draft.build :=
  (draft.sealed_build fits.representable).intact fits.within

theorem Fits.of_le {config : ReaderConfig} {draft : BatchDraft} {bound : Nat}
    (small : draft.region.length ≤ bound) (within : bound ≤ config.maxBatchSize)
    (representable : BatchHeader.size + bound ≤ Int32.maxValue.toInt) : draft.Fits config := by
  refine ⟨Nat.le_trans small within, ?_⟩
  omega

/-- A batch of one record with no key, for examples. -/
def oneValue (length : Nat) : BatchDraft :=
  ({ baseOffset := 7, batchType := 1 } : BatchDraft).pushKeyValue none
    (some (List.replicate length 1))

end BatchDraft
end PartitionLog
