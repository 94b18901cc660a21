import PartitionLog.Proofs.Batch.HeaderLayout
import PartitionLog.Proofs.SelfDelimiting

/-!
# One layout of a header

A header is read field by field or by the places of its fields, and written by place or, in front of
the batch of a snapshot, field by field. All of them take the same bytes for the same header:
`codecs_agree`. What reading takes is what writing makes (`canonical_read`), and only zeros read as
free space (`isZeroed_iff`).
-/
namespace PartitionLog

namespace BatchHeader

theorem run_read_append {bytes : Bytes} (full : bytes.length = size) (following : Bytes) :
    read.run (bytes ++ following) = (.ok (ofBytes bytes), following) := by
  have decodes := decodes_write (ofBytes bytes) following
  rwa [write_ofBytes bytes full] at decodes

theorem canonical_read : read.Canonical write := by
  intro input h rest found
  obtain ⟨taken, rfl, decodes, -⟩ := selfDelimiting_read input h rest found
  -- With zeros behind it there is a whole header, and all that reading leaves of it are the zeros.
  let padded := taken ++ List.replicate size 0
  have room : (padded.take size).length = size := by simp [padded]
  have whole := run_read_append room (padded.drop size)
  rw [List.take_append_drop, decodes] at whole
  have left := congrArg (List.length ·.2) whole
  have full : taken.length = size := by
    simp only [List.length_replicate, List.length_drop, padded, List.length_append] at left
    omega
  have answer := run_read_append full rest
  rw [found] at answer
  cases answer
  rw [write_ofBytes taken full]
  exact ⟨rfl, decodes⟩

theorem write_zero : write {} = List.replicate size 0 := rfl

theorem isZeroed_iff (h : BatchHeader) : h.isZeroed ↔ ∀ b ∈ h.write, b = 0 := by
  rw [isZeroed, decide_eq_true_iff]
  constructor
  · rintro rfl b member
    rw [write_zero] at member
    exact List.eq_of_mem_replicate member
  · intro zeros
    apply write_inj
    rw [write_zero, ← h.length_write]
    exact List.eq_replicate_of_mem zeros

end BatchHeader

theorem KeyValue.SnapshotBatch.take_write (batch : SnapshotBatch) :
    batch.write.take BatchHeader.size = batch.header.write := by
  rw [write, writeHeader_eq, List.append_assoc, List.append_assoc,
    List.take_left' batch.header.length_write]

open BatchHeader in
theorem BatchHeader.codecs_agree :
    (∀ bytes : Bytes, bytes.length = size →
      read.run bytes = (.ok (ofBytes bytes), []) ∧ (ofBytes bytes).write = bytes) ∧
    ∀ h : BatchHeader,
      h.write.length = size ∧ ofBytes h.write = h ∧
        (∀ batch : KeyValue.SnapshotBatch, batch.header = h → batch.write.take size = h.write) ∧
        (h.isZeroed ↔ ∀ b ∈ h.write, b = 0) := by
  refine ⟨fun bytes full => ⟨?_, write_ofBytes bytes full⟩, fun h => ?_⟩
  · have answer := run_read_append full []
    rwa [List.append_nil] at answer
  · refine ⟨h.length_write, ofBytes_write h, ?_, isZeroed_iff h⟩
    rintro batch rfl
    exact batch.take_write

end PartitionLog
