import PartitionLog.Proofs.Batch.HeaderCodecs
import PartitionLog.Proofs.Batch.Reading

/-!
# Reading with and without checks

Reading without checks takes a header and as many bytes as it asks for (`run_readUnchecked_iff`).
Reading from a stream finds exactly the batches among these that pass the checks:
`readNext_iff_readUnchecked`.
-/
namespace PartitionLog.Batch

variable {batch : Batch} {bytes rest : Bytes}

theorem verify_eq_ok_iff :
    batch.verify = .ok () ↔
      batch.header.computedHeaderCrc = batch.header.headerCrc ∧
        batch.header.computedCrc batch.records = batch.header.crc := by
  unfold verify
  by_cases headerCrc : batch.header.computedHeaderCrc = batch.header.headerCrc
  · by_cases crc : batch.header.computedCrc batch.records = batch.header.crc <;>
      simp [headerCrc, crc]
  · simp [headerCrc]

theorem recordsSize_eq_getD_iff {header : BatchHeader} {size : Nat} :
    header.recordsSize = some size ↔
      BatchHeader.size ≤ header.batchSize.toInt ∧ size = header.recordsSize.getD 0 := by
  rw [BatchHeader.recordsSize]
  split
  · simp only [reduceCtorEq, false_iff]
    omega
  · simp only [Option.some.injEq, Option.getD_some]
    omega

/-- Only a batch without a place comes back. -/
theorem run_readUnchecked_iff :
    readUnchecked.run bytes = (.ok batch, rest) ↔
      bytes = batch.write ++ rest ∧ batch.records.length = batch.header.recordsSize.getD 0 ∧
        batch.placed 0 0 = batch := by
  constructor
  · intro found
    obtain ⟨header, body, taken, found⟩ := Reader.run_bind_eq_ok_iff.mp found
    obtain ⟨records, behind, taken', found⟩ := Reader.run_bind_eq_ok_iff.mp found
    cases found
    obtain ⟨rfl, -⟩ := BatchHeader.canonical_read _ _ _ taken
    obtain ⟨length, rfl⟩ := Reader.run_take_eq_ok_iff.mp taken'
    exact ⟨by rw [write, List.append_assoc], length, rfl⟩
  · rintro ⟨rfl, length, unplaced⟩
    have records : (Reader.take (batch.header.recordsSize.getD 0)).Decodes batch.records
        batch.records := length ▸ .take batch.records
    have decodes : readUnchecked.Decodes batch.write (batch.placed 0 0) :=
      batch.header.decodes_write.bind (records.bind_pure _)
    rw [unplaced] at decodes
    exact decodes rest

theorem readNext_iff_readUnchecked (config : ReaderConfig) (index filePosition : Nat)
    (stream : ByteStream) (batch : Batch) :
    (readNext config index filePosition stream).1 = .ok (some batch) ↔
      ∃ unchecked, (readUnchecked.run stream.delivered).1 = .ok unchecked ∧
        unchecked.verify = .ok () ∧
        BatchHeader.size ≤ unchecked.header.batchSize.toInt ∧
        unchecked.records.length ≤ config.maxBatchSize ∧
        batch = { unchecked with index, filePosition } := by
  rw [readNext_eq_some_iff]
  constructor
  · rintro ⟨intact, rfl, rfl, following, held⟩
    obtain ⟨sane, length⟩ := recordsSize_eq_getD_iff.mp intact.size
    have found : readUnchecked.run stream.delivered = (.ok (batch.placed 0 0), following) :=
      run_readUnchecked_iff.mpr ⟨held, length, rfl⟩
    have passed : (batch.placed 0 0).verify = .ok () := intact.placed.verify
    exact ⟨batch.placed 0 0, congrArg Prod.fst found, passed, sane, intact.within, rfl⟩
  · rintro ⟨unchecked, found, passed, sane, within, rfl⟩
    obtain ⟨held, length, -⟩ := run_readUnchecked_iff.mp (Prod.ext found rfl)
    obtain ⟨headerCrc, crc⟩ := verify_eq_ok_iff.mp passed
    have size := recordsSize_eq_getD_iff.mpr ⟨sane, length⟩
    exact ⟨⟨headerCrc, size, within, crc⟩, rfl, rfl, _, held⟩

end PartitionLog.Batch
